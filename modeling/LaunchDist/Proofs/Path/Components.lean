import LaunchDist.Proofs.Path.Steps
/-!
# Normal components

The normal components of a path name the same entries as its steps. The paths along fewer of them are
the parents of the path.
-/
namespace LaunchDist

namespace Path

/-- Whether a step may be a component of a path. -/
def IsComponent : Step → Prop
  | .name n => IsEntryName n
  | .slash => False
  | _ => True

/-- The components that moves have, some segments making no move. -/
def normalize : List (Option Step) → List Step
  | some .here :: rest => .here :: (rest.filterMap id).filter (· ≠ .here)
  | moves => (moves.filterMap id).filter (· ≠ .here)

theorem components_eq (p : Path) : p.components = normalize (p.segments.map step?) := by
  rw [components]
  unfold normalize
  rfl

private theorem normalize_cons_of_ne (m : Option Step) (moves : List (Option Step))
    (hm : m ≠ some .here) :
    normalize (m :: moves) = ((m :: moves).filterMap id).filter (· ≠ .here) := by
  unfold normalize
  split
  · rename_i h
    exact absurd (List.cons.inj h).1 hm
  · rfl

private theorem normalize_append (moves more : List (Option Step)) (hmore : some .here ∉ more) :
    normalize (moves ++ more) = normalize moves ++ more.filterMap id := by
  have hfilter : (more.filterMap id).filter (· ≠ .here) = more.filterMap id := by
    rw [List.filter_eq_self]
    intro s hs
    have hm : some s ∈ more := by simpa using hs
    rw [decide_eq_true_eq]
    rintro rfl
    exact hmore hm
  cases moves with
  | nil =>
    cases more with
    | nil => rfl
    | cons m more =>
      rw [List.nil_append, normalize_cons_of_ne m more (fun h => hmore (by simp [h])), hfilter]
      rfl
  | cons m moves =>
    by_cases hm : m = some .here
    · subst hm
      change Step.here :: ((moves ++ more).filterMap id).filter (· ≠ .here) = _
      rw [List.filterMap_append, List.filter_append, hfilter]
      rfl
    · rw [List.cons_append, normalize_cons_of_ne m _ hm, normalize_cons_of_ne m _ hm, ← List.cons_append,
        List.filterMap_append, List.filter_append, hfilter]

theorem components_entry (p : Path) (s : String) (hs : IsEntryName (Utf8.encode s)) :
    (p / s).components = p.components ++ [.name (Utf8.encode s)] := by
  have hstep : [Utf8.encode s].map step? = [some (.name (Utf8.encode s))] := by
    rw [List.map_singleton, hs.2]
  have hseg : (ofString s).segments = [Utf8.encode s] := hs.segments
  rw [components_eq, components_eq]
  rcases segments_join p (ofString s) hs.isAbsolute with h | ⟨first, hp, h⟩
  · rw [show p / s = p.join (ofString s) from rfl, h, hseg, List.map_append, hstep,
      normalize_append _ _ (by simp)]
    rfl
  · rw [show p / s = p.join (ofString s) from rfl, h, hp, hseg, List.map_append, List.map_append, hstep,
      normalize_append _ _ (by simp), normalize_append _ _ (by simp [step?]), List.append_assoc]
    rfl

theorem parents_entry (p : Path) (s : String) (hs : IsEntryName (Utf8.encode s)) :
    (p / s).parents =
      ofComponents p.isAbsolute p.components :: shorter p.isAbsolute p.components.reverse := by
  rw [parents, components_entry p s hs, isAbsolute_entry p s hs, List.reverse_append]
  rw [List.reverse_singleton, List.singleton_append, shorter, List.reverse_reverse]

private theorem mem_normalize (moves : List (Option Step)) (s : Step) (h : s ∈ normalize moves) :
    some s ∈ moves := by
  have hall : ∀ more : List (Option Step), s ∈ (more.filterMap id).filter (· ≠ .here) →
      some s ∈ more := by
    intro more hs
    simpa using (List.mem_filter.mp hs).1
  unfold normalize at h
  split at h
  · rcases List.mem_cons.mp h with rfl | h
    · exact List.mem_cons_self
    · exact List.mem_cons_of_mem _ (hall _ h)
  · exact hall _ h

theorem mem_components (p : Path) (s : Step) (h : s ∈ p.components) : s ∈ p.moves := by
  rw [components_eq] at h
  obtain ⟨segment, hseg, hs⟩ := List.mem_map.mp (mem_normalize _ s h)
  exact List.mem_filterMap.mpr ⟨segment, hseg, hs⟩

theorem notMem_of_mem_splitOn {α : Type} [DecidableEq α] (a : α) (as : List α) :
    ∀ part ∈ as.splitOn a, a ∉ part := by
  induction as with
  | nil => simp
  | cons b bs ih =>
    obtain ⟨first, rest, hs⟩ := List.exists_cons_of_ne_nil (List.splitOn_ne_nil a bs)
    rw [hs] at ih
    rw [List.splitOn_cons_eq_if_modifyHead, hs]
    by_cases hb : b = a
    · rw [if_pos (by simp [hb])]
      intro part hpart
      rcases List.mem_cons.mp hpart with rfl | hpart
      · exact List.not_mem_nil
      · exact ih part hpart
    · rw [if_neg (by simp [hb]), List.modifyHead_cons]
      intro part hpart
      rcases List.mem_cons.mp hpart with rfl | hpart
      · intro hm
        rcases List.mem_cons.mp hm with hm | hm
        · exact hb hm.symm
        · exact ih first List.mem_cons_self hm
      · exact ih part (List.mem_cons_of_mem _ hpart)

theorem isComponent_of_mem_moves (p : Path) (s : Step) (h : s ∈ p.moves) : IsComponent s := by
  obtain ⟨segment, hseg, hs⟩ := List.mem_filterMap.mp h
  cases s with
  | here => trivial
  | up => trivial
  | name n =>
    obtain rfl := eq_of_step?_eq_name hs
    exact ⟨notMem_of_mem_splitOn separator p.bytes segment hseg, hs⟩
  | slash =>
    unfold step? at hs
    split_ifs at hs <;> cases hs

theorem steps_of_lastStep? {p : Path} {n : Name} (h : p.lastStep? = some (.name n)) :
    ∃ xs, p.steps = xs ++ [.name n] ∨ p.steps = xs ++ [.name n, .slash] := by
  have hmoves : p.moves.filter (· ≠ .slash) = p.moves := by
    refine List.filter_eq_self.mpr fun s hs => decide_eq_true ?_
    rintro rfl
    exact isComponent_of_mem_moves p _ hs
  rw [lastStep?] at h
  rcases p.steps_cases with hs | hs
  · rw [hs, hmoves] at h
    obtain ⟨xs, hxs⟩ := List.getLast?_eq_some_iff.mp h
    exact ⟨xs, .inl (hs.trans hxs)⟩
  · rw [hs, List.filter_append, hmoves, show [Step.slash].filter (· ≠ .slash) = [] from rfl,
      List.append_nil] at h
    obtain ⟨xs, hxs⟩ := List.getLast?_eq_some_iff.mp h
    exact ⟨xs, .inr (by rw [hs, hxs, List.append_assoc]; rfl)⟩

theorem mem_moves_of_fileName? {p : Path} {n : Name} (h : p.fileName? = some n) :
    .name n ∈ p.moves := by
  unfold fileName? at h
  split at h
  · rename_i hlast
    obtain rfl := Option.some.inj h
    exact mem_components p _ (List.mem_of_getLast? hlast)
  · cases h

private theorem namesOf_normalize (moves : List (Option Step)) :
    namesOf (normalize moves) = namesOf (moves.filterMap id) := by
  have hall : ∀ steps : List Step, namesOf (steps.filter (· ≠ .here)) = namesOf steps := by
    intro steps
    induction steps with
    | nil => rfl
    | cons s rest ih =>
      cases s with
      | here => exact ih
      | up => exact ih
      | slash => exact ih
      | name n => exact congrArg (n :: ·) ih
  unfold normalize
  split
  · exact hall _
  · exact hall _

theorem namesOf_components (p : Path) : namesOf p.components = namesOf p.moves := by
  rw [components_eq, namesOf_normalize, moves, List.filterMap_map]
  rfl

/-- The steps that go somewhere. -/
def goings (steps : List Step) : List Step :=
  steps.filter fun s => s ≠ .here ∧ s ≠ .slash

theorem goings_append (xs ys : List Step) : goings (xs ++ ys) = goings xs ++ goings ys :=
  List.filter_append ..

theorem goings_goings (xs : List Step) : goings (goings xs) = goings xs := by
  rw [goings, goings, List.filter_filter]
  simp

private theorem goings_normalize (moves : List (Option Step)) :
    goings (normalize moves) = goings (moves.filterMap id) := by
  have hall : ∀ steps : List Step, goings (steps.filter (· ≠ .here)) = goings steps := by
    intro steps
    rw [goings, goings, List.filter_filter]
    refine List.filter_congr fun s _ => ?_
    by_cases hs : s = .here <;> simp [hs]
  unfold normalize
  split
  · exact hall _
  · exact hall _

theorem goings_steps (p : Path) : goings p.steps = goings p.components := by
  have hmoves : goings p.steps = goings p.moves := by
    rcases p.steps_cases with hs | hs
    · rw [hs]
    · rw [hs, goings_append]
      exact List.append_nil _
  rw [hmoves, components_eq, goings_normalize, moves, List.filterMap_map]
  rfl

private theorem eq_map_namesOf (steps : List Step) (h : ∀ s ∈ steps, ∃ n, s = .name n) :
    steps = (namesOf steps).map .name := by
  induction steps with
  | nil => rfl
  | cons s rest ih =>
    obtain ⟨n, rfl⟩ := h s List.mem_cons_self
    exact congrArg (.name n :: ·) (ih fun t ht => h t (List.mem_cons_of_mem _ ht))

/-- The components of a path that does not go up are names, but for a dot that may stand first. -/
theorem components_of_up_notMem (p : Path) (hup : Step.up ∉ p.moves) :
    ∃ lead, (lead = [] ∨ lead = [.here]) ∧ p.components = lead ++ (namesOf p.moves).map .name := by
  have hnames : ∀ more : List (Option Step), (∀ s, some s ∈ more → s ∈ p.moves) →
      (more.filterMap id).filter (· ≠ .here) =
        (namesOf ((more.filterMap id).filter (· ≠ .here))).map .name := by
    intro more hmore
    apply eq_map_namesOf
    intro s hs
    obtain ⟨hs, hne⟩ := List.mem_filter.mp hs
    have hm := hmore s (by simpa using hs)
    cases s with
    | here => simp at hne
    | up => exact absurd hm hup
    | name n => exact ⟨n, rfl⟩
    | slash => exact (isComponent_of_mem_moves p _ hm).elim
  have hmoves : ∀ s, some s ∈ p.segments.map step? → s ∈ p.moves := by
    intro s hs
    obtain ⟨segment, hseg, heq⟩ := List.mem_map.mp hs
    exact List.mem_filterMap.mpr ⟨segment, hseg, heq⟩
  have hn := p.namesOf_components
  rw [components_eq] at hn ⊢
  by_cases hhead : ∃ rest, p.segments.map step? = some .here :: rest
  · obtain ⟨rest, hr⟩ := hhead
    rw [hr] at hn hmoves ⊢
    refine ⟨[.here], .inr rfl, ?_⟩
    rw [← hn]
    exact congrArg (.here :: ·) (hnames rest fun s hs => hmoves s (List.mem_cons_of_mem _ hs))
  · have hplain : normalize (p.segments.map step?) =
        ((p.segments.map step?).filterMap id).filter (· ≠ .here) := by
      unfold normalize
      split
      · rename_i rest hr
        exact absurd ⟨rest, hr⟩ hhead
      · rfl
    refine ⟨[], .inl rfl, ?_⟩
    rw [← hn, hplain, List.nil_append]
    exact hnames _ hmoves

theorem step?_eq_here_iff (segment : Bytes) :
    step? segment = some .here ↔ segment = Utf8.encode "." := by
  constructor
  · intro h
    unfold step? at h
    split_ifs at h with _ hdot
    · exact hdot
    · cases h
    · cases h
  · rintro rfl
    decide

/-- A relative path that is a single name starts with that name, and in the segments behind it, which are
empty or dots, it goes nowhere. -/
theorem components_eq_name_iff (p : Path) (n : Name) :
    p.isAbsolute = false ∧ p.components = [.name n] ↔
      IsEntryName n ∧ ∃ rest, p.segments = n :: rest ∧
        ∀ segment ∈ rest, segment = [] ∨ segment = Utf8.encode "." := by
  constructor
  · rintro ⟨ha, hc⟩
    obtain ⟨bytes⟩ := p
    cases bytes with
    | nil => cases hc
    | cons b bs =>
      have hb : b ≠ separator := by
        rintro rfl
        cases ha
      obtain ⟨segment, rest, hseg⟩ := segments_cons_of_ne b bs hb
      obtain ⟨s, hs⟩ : ∃ s, step? (b :: segment) = some s := by
        rw [← Option.ne_none_iff_exists', ne_eq, step?_eq_none_iff]
        exact List.cons_ne_nil _ _
      rw [components_eq, hseg, List.map_cons, hs] at hc
      have hhere : s ≠ .here := by
        rintro rfl
        cases (List.cons.inj hc).1
      rw [normalize_cons_of_ne _ _ (fun h => hhere (Option.some.inj h)), List.filterMap_cons, id,
        List.filter_cons_of_pos (by simp [hhere])] at hc
      obtain ⟨rfl, hrest⟩ := List.cons.inj hc
      obtain rfl := eq_of_step?_eq_name hs
      refine ⟨⟨notMem_of_mem_splitOn separator (b :: bs) _ ?_, hs⟩, rest, hseg, fun more hmore => ?_⟩
      · change b :: segment ∈ (Path.mk (b :: bs)).segments
        rw [hseg]
        exact List.mem_cons_self
      · cases hstep : step? more with
        | none => exact .inl ((step?_eq_none_iff more).mp hstep)
        | some t =>
          have ht : t ∈ (rest.map step?).filterMap id :=
            List.mem_filterMap.mpr ⟨some t, List.mem_map.mpr ⟨more, hmore, hstep⟩, rfl⟩
          have hdot : t = .here := by simpa using List.filter_eq_nil_iff.mp hrest t ht
          exact .inr ((step?_eq_here_iff more).mp (hdot ▸ hstep))
  · rintro ⟨hn, rest, hseg, hrest⟩
    have ha : p.isAbsolute = false := by
      obtain ⟨bytes⟩ := p
      cases bytes with
      | nil => rfl
      | cons b bs =>
        refine decide_eq_false fun hb => hn.ne_nil ?_
        obtain rfl := Option.some.inj hb
        rw [segments, List.splitOn_cons_eq_if_modifyHead, if_pos (by simp)] at hseg
        exact (List.cons.inj hseg).1.symm
    refine ⟨ha, ?_⟩
    rw [components_eq, hseg, List.map_cons, hn.2, normalize_cons_of_ne _ _ (by simp),
      List.filterMap_cons, id, List.filter_cons_of_pos (by simp)]
    refine congrArg (Step.name n :: ·) (List.filter_eq_nil_iff.mpr fun t ht => ?_)
    obtain ⟨segment, hsegment, ht⟩ := List.mem_map.mp (by simpa using ht : some t ∈ rest.map step?)
    rcases hrest segment hsegment with rfl | rfl
    · cases ht
    · rw [(step?_eq_here_iff _).mpr rfl] at ht
      simpa using (Option.some.inj ht).symm

theorem steps_of_components_eq (p : Path) (n : Name) (ha : p.isAbsolute = false)
    (hc : p.components = [.name n]) :
    ∃ rest, p.steps = .name n :: rest ∧ ∀ s ∈ rest, s = .here ∨ s = .slash := by
  obtain ⟨hn, more, hseg, hmore⟩ := (p.components_eq_name_iff n).mp ⟨ha, hc⟩
  have hmoves : p.moves = .name n :: more.filterMap step? := by
    rw [moves, hseg, List.filterMap_cons, hn.2]
  have hhere : ∀ s ∈ more.filterMap step?, s = .here := by
    intro s hs
    obtain ⟨segment, hsegment, hstep⟩ := List.mem_filterMap.mp hs
    rcases hmore segment hsegment with rfl | rfl
    · cases hstep
    · rw [(step?_eq_here_iff _).mpr rfl] at hstep
      exact (Option.some.inj hstep).symm
  rcases p.steps_cases with hsteps | hsteps
  · exact ⟨_, hsteps.trans hmoves, fun s hs => .inl (hhere s hs)⟩
  · refine ⟨more.filterMap step? ++ [.slash], by rw [hsteps, hmoves]; rfl, fun s hs => ?_⟩
    rcases List.mem_append.mp hs with hs | hs
    · exact .inl (hhere s hs)
    · exact .inr (List.mem_singleton.mp hs)

private theorem step?_bytes (s : Step) (hs : IsComponent s) :
    separator ∉ s.bytes ∧ step? s.bytes = some s := by
  cases s with
  | here => exact ⟨by decide, by decide⟩
  | up => exact ⟨by decide, by decide⟩
  | name n => exact hs
  | slash => exact hs.elim

private theorem getLast?_intercalate (xs : List Bytes) (bytes : Bytes) (hb : bytes ≠ []) :
    ([separator].intercalate (xs ++ [bytes])).getLast? = bytes.getLast? := by
  induction xs with
  | nil => rw [List.nil_append, List.intercalate_singleton]
  | cons x xs ih =>
    have hne : [separator].intercalate (xs ++ [bytes]) ≠ [] := by
      intro h
      rw [h, List.getLast?_nil, eq_comm, List.getLast?_eq_none_iff] at ih
      exact hb ih
    rw [List.cons_append, List.intercalate_cons_of_ne_nil (by simp),
      List.getLast?_append_of_ne_nil _ hne, ih]

section OfComponents

variable (absolute : Bool) (parts : List Step) (hparts : ∀ s ∈ parts, IsComponent s)

include hparts

private theorem bytes_ne_nil (s : Step) (hs : s ∈ parts) : s.bytes ≠ [] := by
  intro hb
  have hstep := (step?_bytes s (hparts s hs)).2
  rw [hb] at hstep
  cases hstep

private theorem filterMap_bytes : (parts.map Step.bytes).filterMap step? = parts := by
  induction parts with
  | nil => rfl
  | cons s rest ih =>
    rw [List.map_cons, List.filterMap_cons, (step?_bytes s (hparts s List.mem_cons_self)).2]
    exact congrArg (s :: ·) (ih fun t ht => hparts t (List.mem_cons_of_mem _ ht))

private theorem moves_intercalate :
    (([separator].intercalate (parts.map Step.bytes)).splitOn separator).filterMap step? = parts := by
  cases parts with
  | nil => rfl
  | cons s rest =>
    rw [List.splitOn_intercalate, filterMap_bytes _ hparts]
    · intro bytes hb
      obtain ⟨t, ht, rfl⟩ := List.mem_map.mp hb
      exact (step?_bytes t (hparts t ht)).1
    · exact List.cons_ne_nil _ _

theorem isAbsolute_ofComponents : (ofComponents absolute parts).isAbsolute = absolute := by
  cases absolute with
  | true => simp [ofComponents, isAbsolute]
  | false =>
    cases parts with
    | nil => rfl
    | cons s rest =>
      have hs := (step?_bytes s (hparts s List.mem_cons_self)).1
      obtain ⟨b, bs, hb⟩ := List.exists_cons_of_ne_nil (bytes_ne_nil _ hparts s List.mem_cons_self)
      have hsep : b ≠ separator := by
        rintro rfl
        exact hs (by rw [hb]; exact List.mem_cons_self)
      have hhead : (ofComponents false (s :: rest)).bytes.head? = some b := by
        change ([separator].intercalate (s.bytes :: rest.map Step.bytes)).head? = some b
        rw [hb, List.intercalate_cons_cons_left, List.head?_cons]
      rw [isAbsolute, hhead]
      simp [hsep]

theorem moves_ofComponents : (ofComponents absolute parts).moves = parts := by
  cases absolute with
  | false => exact moves_intercalate parts hparts
  | true =>
    have hsplit : (ofComponents true parts).segments =
        [] :: ([separator].intercalate (parts.map Step.bytes)).splitOn separator :=
      List.splitOn_append_cons_self [] _
    rw [moves, hsplit]
    exact moves_intercalate parts hparts

theorem steps_ofComponents : (ofComponents absolute parts).steps = parts := by
  rw [steps_eq, moves_ofComponents absolute parts hparts, if_neg]
  rintro ⟨hne, hl⟩
  -- The last component is not empty and holds no separator.
  obtain ⟨rest, s, rfl⟩ : ∃ rest s, parts = rest ++ [s] :=
    ⟨_, _, (List.dropLast_append_getLast hne).symm⟩
  have hs : s ∈ rest ++ [s] := by simp
  have hb := bytes_ne_nil _ hparts s hs
  have hlast : (ofComponents absolute (rest ++ [s])).bytes.getLast? = s.bytes.getLast? := by
    have hi := getLast?_intercalate (rest.map Step.bytes) s.bytes hb
    have hne : [separator].intercalate (rest.map Step.bytes ++ [s.bytes]) ≠ [] := by
      intro h
      rw [h, List.getLast?_nil, eq_comm, List.getLast?_eq_none_iff] at hi
      exact hb hi
    rw [ofComponents, List.map_append, List.map_singleton]
    cases absolute with
    | false => exact hi
    | true => rw [if_pos rfl, List.getLast?_cons_of_ne_nil hne, hi]
  rw [hlast] at hl
  exact (step?_bytes s (hparts s hs)).1 (List.mem_of_getLast? hl)

end OfComponents

private theorem mem_intercalate {b : UInt8} (xs : List Bytes) (h : b ∈ [separator].intercalate xs) :
    b = separator ∨ ∃ x ∈ xs, b ∈ x := by
  induction xs with
  | nil => exact absurd h List.not_mem_nil
  | cons x xs ih =>
    cases xs with
    | nil => exact .inr ⟨x, List.mem_cons_self, by simpa using h⟩
    | cons y ys =>
      rw [List.intercalate_cons_cons, List.mem_append, List.mem_append, List.mem_singleton] at h
      rcases h with (hx | hsep) | h
      · exact .inr ⟨x, List.mem_cons_self, hx⟩
      · exact .inl hsep
      · exact (ih h).imp_right fun ⟨z, hz, hb⟩ => ⟨z, List.mem_cons_of_mem x hz, hb⟩

theorem mem_bytes_ofComponents {absolute : Bool} {parts : List Step} {b : UInt8}
    (h : b ∈ (ofComponents absolute parts).bytes) : b = separator ∨ ∃ s ∈ parts, b ∈ s.bytes := by
  have hrelative : b ∈ [separator].intercalate (parts.map Step.bytes) →
      b = separator ∨ ∃ s ∈ parts, b ∈ s.bytes := by
    intro h
    refine (mem_intercalate _ h).imp_right fun ⟨x, hx, hb⟩ => ?_
    obtain ⟨s, hs, rfl⟩ := List.mem_map.mp hx
    exact ⟨s, hs, hb⟩
  cases absolute with
  | false => exact hrelative h
  | true => exact (List.mem_cons.mp h).elim .inl hrelative

theorem exists_of_mem_shorter {absolute : Bool} {parts : List Step} {q : Path}
    (h : q ∈ shorter absolute parts) :
    ∃ first rest, parts.reverse = first ++ rest ∧ q = ofComponents absolute first := by
  induction parts with
  | nil => cases h
  | cons s parts ih =>
    rw [shorter] at h
    rcases List.mem_cons.mp h with rfl | h
    · exact ⟨parts.reverse, [s], List.reverse_cons, rfl⟩
    · obtain ⟨first, rest, hparts, rfl⟩ := ih h
      exact ⟨first, rest ++ [s], by rw [List.reverse_cons, hparts, List.append_assoc], rfl⟩

theorem isAbsolute_of_parents {p q : Path} {qs : List Path} (h : p.parents = q :: qs) :
    q.isAbsolute = p.isAbsolute := by
  rw [parents] at h
  cases hc : p.components.reverse with
  | nil =>
    rw [hc] at h
    cases h
  | cons s rest =>
    rw [hc, shorter] at h
    obtain ⟨rfl, _⟩ := List.cons.inj h
    refine isAbsolute_ofComponents _ _ fun t ht => isComponent_of_mem_moves p t (mem_components p t ?_)
    rw [← List.mem_reverse, hc]
    exact List.mem_cons_of_mem _ (List.mem_reverse.mp ht)

private theorem getLast?_intercalate_nil (xs : List Bytes) (hne : xs ≠ []) :
    ([separator].intercalate (xs ++ [[]])).getLast? = some separator := by
  induction xs with
  | nil => exact absurd rfl hne
  | cons x xs ih =>
    rw [List.cons_append, List.intercalate_cons_of_ne_nil (by simp)]
    cases xs with
    | nil => simp
    | cons y ys =>
      rw [List.getLast?_append, ih (List.cons_ne_nil y ys)]
      rfl

theorem segments_of_steps {p : Path} {xs : List Step} {n : Name} (h : p.steps = xs ++ [.name n]) :
    ∃ before, p.segments = before ++ [n] := by
  have hmoves : p.moves = xs ++ [.name n] ∧ p.bytes.getLast? ≠ some separator := by
    rw [steps_eq] at h
    split_ifs at h with hslash
    · exact absurd (congrArg List.getLast? h) (by simp)
    · exact ⟨h, fun hl => hslash ⟨by rw [h]; simp, hl⟩⟩
  obtain ⟨hm, hlast⟩ := hmoves
  obtain ⟨before, segment, hsegments⟩ : ∃ before segment, p.segments = before ++ [segment] :=
    ⟨_, _, (List.dropLast_append_getLast (List.splitOn_ne_nil separator p.bytes)).symm⟩
  rw [moves, hsegments, List.filterMap_append] at hm
  cases hstep : step? segment with
  | none =>
    -- An empty last segment makes no move, but a separator stands before it.
    obtain rfl := (step?_eq_none_iff segment).mp hstep
    cases before with
    | nil => simp [step?] at hm
    | cons first before =>
      have hbytes : [separator].intercalate p.segments = p.bytes := List.intercalate_splitOn separator
      refine absurd ?_ hlast
      rw [← hbytes, hsegments]
      exact getLast?_intercalate_nil _ (List.cons_ne_nil first before)
  | some s =>
    rw [List.filterMap_cons, hstep] at hm
    obtain ⟨_, hs⟩ := List.append_inj' hm rfl
    obtain rfl := eq_of_step?_eq_name (hstep.trans (congrArg some (List.singleton_inj.mp hs)))
    exact ⟨before, hsegments⟩

theorem fileName?_of_steps {p : Path} {xs : List Step} {n : Name} (h : p.steps = xs ++ [.name n]) :
    p.fileName? = some n := by
  obtain ⟨before, hsegments⟩ := segments_of_steps h
  have hmem : Step.name n ∈ p.moves := by
    rcases p.steps_cases with hs | hs
    · rw [← hs, h]
      simp
    · rw [hs] at h
      exact absurd (congrArg List.getLast? h) (by simp)
  have hstep : [n].map step? = [some (.name n)] := by
    rw [List.map_singleton, (isComponent_of_mem_moves p _ hmem).2]
  rw [fileName?, components_eq, hsegments, List.map_append, hstep, normalize_append _ _ (by simp)]
  simp

end Path

end LaunchDist
