import LaunchDist.Proofs.FileSystem.Edit
import LaunchDist.Proofs.FileSystem.Emptying
import LaunchDist.Proofs.FileSystem.Spared
/-!
# Changes that a look-up does not see

A look-up sees the locations on its trail up to the first one that is missing. Making a directory anew
changes what is at its place or below, and makes missing directories on the way to it. A file that is
looked up along other locations is found afterwards if it was found before, and missing if it was
missing.
-/
namespace LaunchDist

namespace FileSystem

open LaunchDist.Path (Step IsEntryName goings)

/-- Whether a look-up gets as far as a location: all that is before it on the trail is there. -/
def Meets (fs : FileSystem) (p : Path) (u : Location) : Prop :=
  ∃ earlier later, fs.trail p = earlier ++ u :: later ∧ ∀ v ∈ earlier, fs.entry? v ≠ none

section Meets

variable {fs fs' : FileSystem} {p : Path} {k : Nat} {l u v : Location}

theorem exists_trailSteps (fs : FileSystem) (k : Nat) (l : Location) (steps : List Step) :
    ∃ later, fs.trailSteps k l steps = l :: later := by
  induction steps with
  | nil => exact ⟨[], trailSteps_nil ..⟩
  | cons s rest ih =>
    cases s with
    | here => rwa [trailSteps_stay _ _ _ _ _ (.inl rfl)]
    | slash => rwa [trailSteps_stay _ _ _ _ _ (.inr rfl)]
    | up => exact ⟨_, trailSteps_up ..⟩
    | name n => cases k <;> exact ⟨_, rfl⟩

theorem exists_trailSteps_name (fs : FileSystem) (k : Nat) (l : Location) (n : Name)
    (rest : List Step) : ∃ later, fs.trailSteps k l (.name n :: rest) = l :: (l ++ [n]) :: later := by
  cases hl : fs.linkAt? (l ++ [n]) with
  | none =>
    obtain ⟨later, hlater⟩ := exists_trailSteps fs k (l ++ [n]) rest
    exact ⟨later, by rw [trailSteps_enter _ _ _ _ _ hl, hlater]⟩
  | some target =>
    cases k with
    | zero => exact ⟨[], trailSteps_stuck _ _ _ _ _ hl⟩
    | succ k => exact ⟨_, trailSteps_follow _ _ _ _ _ _ hl⟩

/-- A trail gets to a location in another state, too, if no link before it has changed. -/
theorem mem_trailSteps_of_same {earlier later : List Location} (steps : List Step)
    (h : fs.trailSteps k l steps = earlier ++ u :: later)
    (hsame : ∀ v ∈ earlier, fs'.linkAt? v = fs.linkAt? v) : u ∈ fs'.trailSteps k l steps := by
  induction k, l, steps using stepsInduction generalizing earlier with
  | nil k l =>
    rw [trailSteps_nil] at h ⊢
    rw [h]
    simp
  | cons k l s rest ihr ihj =>
    cases earlier with
    | nil =>
      obtain ⟨_, hstart⟩ := exists_trailSteps fs k l (s :: rest)
      rw [hstart] at h
      obtain rfl := (List.cons.inj h).1
      exact start_mem_trailSteps ..
    | cons v earlier =>
      have hlater : ∀ w ∈ earlier, fs'.linkAt? w = fs.linkAt? w := fun w hw =>
        hsame w (List.mem_cons_of_mem _ hw)
      cases s with
      | here =>
        rw [trailSteps_stay _ _ _ _ _ (.inl rfl)] at h ⊢
        exact ihr l h hsame
      | slash =>
        rw [trailSteps_stay _ _ _ _ _ (.inr rfl)] at h ⊢
        exact ihr l h hsame
      | up =>
        rw [trailSteps_up] at h ⊢
        exact List.mem_cons_of_mem _ (ihr _ (List.cons.inj h).2 hlater)
      | name n =>
        obtain ⟨_, hname⟩ := exists_trailSteps_name fs k l n rest
        have hnext := (List.cons.inj (hname.symm.trans h)).2
        cases earlier with
        | nil =>
          obtain rfl := (List.cons.inj hnext).1
          obtain ⟨_, hname'⟩ := exists_trailSteps_name fs' k l n rest
          rw [hname']
          simp
        | cons w earlier =>
          obtain rfl := (List.cons.inj hnext).1
          have hlink := hlater _ List.mem_cons_self
          cases hl : fs.linkAt? (l ++ [n]) with
          | none =>
            rw [trailSteps_enter _ _ _ _ _ hl] at h
            rw [trailSteps_enter _ _ _ _ _ (hlink.trans hl)]
            exact List.mem_cons_of_mem _ (ihr _ (List.cons.inj h).2 hlater)
          | some target =>
            cases k with
            | zero =>
              rw [trailSteps_stuck _ _ _ _ _ hl] at h
              have hnil : [] = earlier ++ u :: later := (List.cons.inj (List.cons.inj h).2).2
              simp at hnil
            | succ k =>
              rw [trailSteps_follow _ _ _ _ _ _ hl] at h
              rw [trailSteps_follow _ _ _ _ _ _ (hlink.trans hl)]
              exact List.mem_cons_of_mem _ (List.mem_cons_of_mem _ (ihj k _ _ rfl
                (List.cons.inj (List.cons.inj h).2).2 fun w hw =>
                  hlater w (List.mem_cons_of_mem _ hw)))

theorem Meets.of_mem (h : ∀ v ∈ fs.trail p, fs.entry? v ≠ none) (hu : u ∈ fs.trail p) :
    fs.Meets p u := by
  obtain ⟨earlier, later, htrail⟩ := List.append_of_mem hu
  refine ⟨earlier, later, htrail, fun v hv => h v ?_⟩
  rw [htrail]
  exact List.mem_append_left _ hv

theorem Meets.before {earlier later : List Location} (htrail : fs.trail p = earlier ++ u :: later)
    (h : ∀ v ∈ earlier, fs.entry? v ≠ none) (hv : v ∈ earlier) : fs.Meets p v := by
  obtain ⟨first, rest, rfl⟩ := List.append_of_mem hv
  refine ⟨first, rest ++ u :: later, ?_, fun w hw => h w (List.mem_append_left _ hw)⟩
  rw [htrail, List.append_assoc, List.cons_append]

theorem exists_meets_missing (h : ¬ ∀ v ∈ fs.trail p, fs.entry? v ≠ none) :
    ∃ u, fs.Meets p u ∧ fs.entry? u = none := by
  have hfound : (fs.trail p).find? (fun v => fs.entry? v = none) ≠ none := by
    intro hnone
    refine h fun v hv => ?_
    simpa using List.find?_eq_none.mp hnone v hv
  obtain ⟨u, hu⟩ := Option.ne_none_iff_exists'.mp hfound
  obtain ⟨hnone, earlier, later, htrail, hearlier⟩ := List.find?_eq_some_iff_append.mp hu
  exact ⟨u, ⟨earlier, later, htrail, fun v hv => by simpa using hearlier v hv⟩, by simpa using hnone⟩

section Same

variable (hs : p.isAbsolute = true ∨ SameStart fs fs')
  (hsame : ∀ u, fs.Meets p u → fs'.entry? u = fs.entry? u)

include hs hsame

theorem Meets.mem_trail (h : fs.Meets p u) : u ∈ fs'.trail p := by
  obtain ⟨earlier, later, htrail, hearlier⟩ := h
  have hlinks : ∀ v ∈ earlier, fs'.linkAt? v = fs.linkAt? v := fun v hv =>
    linkAt?_congr (hsame v (Meets.before htrail hearlier hv))
  rw [trail] at htrail ⊢
  rw [origin?_congr hs]
  cases ho : fs.origin? p with
  | none =>
    have ha : ¬ p.isAbsolute = true := by
      intro ha
      rw [origin?, originOf, if_pos ha] at ho
      cases ho
    rw [ho] at htrail
    cases earlier with
    | nil =>
      obtain rfl := (List.cons.inj htrail).1
      simp [(hs.resolve_left ha).1]
    | cons v earlier => simp at htrail
  | some o =>
    rw [ho] at htrail
    exact mem_trailSteps_of_same _ htrail hlinks

theorem find_of_meets {e : DirEntry} (hf : fs.find .follow p = .ok (some l, e)) :
    fs'.find .follow p = .ok (some l, e) :=
  find_of_same hf hs fun _ hu => hsame _ (.of_mem (entry?_ne_none_of_find hf) hu)

theorem isFile_of_meets : fs'.isFile p = fs.isFile p := by
  rw [Bool.eq_iff_iff, isFile_iff, isFile_iff]
  constructor
  · rintro ⟨l, mode, content, hf⟩
    by_cases hall : ∀ v ∈ fs.trail p, fs.entry? v ≠ none
    · have htrail : fs'.trail p = fs.trail p :=
        trail_congr hs fun u hu => linkAt?_congr (hsame u (.of_mem hall hu))
      refine ⟨l, mode, content, find_of_same hf (hs.imp_right fun h => ⟨h.1.symm, h.2.symm⟩) ?_⟩
      intro u hu
      rw [htrail] at hu
      exact (hsame u (.of_mem hall hu)).symm
    · -- The location that was missing is still met, and still missing.
      obtain ⟨u, hu, hnone⟩ := exists_meets_missing hall
      have hfound := entry?_ne_none_of_find hf u (hu.mem_trail hs hsame)
      rw [hsame u hu] at hfound
      exact absurd hnone hfound
  · rintro ⟨l, mode, content, hf⟩
    exact ⟨l, mode, content, find_of_meets hs hsame hf⟩

end Same

end Meets

section Parents

variable {fs : FileSystem} {p q : Path} {u : Location}

theorem trailSteps_subset_append (k : Nat) (l : Location) (xs ys : List Step) :
    fs.trailSteps k l xs ⊆ fs.trailSteps k l (xs ++ ys) := by
  induction k, l, xs using stepsInduction with
  | nil k l =>
    rw [trailSteps_nil]
    exact List.cons_subset.mpr ⟨start_mem_trailSteps .., List.nil_subset _⟩
  | cons k l s rest ihr ihj =>
    rw [List.cons_append]
    cases s with
    | here =>
      rw [trailSteps_stay _ _ _ _ _ (.inl rfl), trailSteps_stay _ _ _ _ _ (.inl rfl)]
      exact ihr l
    | slash =>
      rw [trailSteps_stay _ _ _ _ _ (.inr rfl), trailSteps_stay _ _ _ _ _ (.inr rfl)]
      exact ihr l
    | up =>
      rw [trailSteps_up, trailSteps_up]
      exact List.cons_subset_cons _ (ihr _)
    | name n =>
      cases hl : fs.linkAt? (l ++ [n]) with
      | none =>
        rw [trailSteps_enter _ _ _ _ _ hl, trailSteps_enter _ _ _ _ _ hl]
        exact List.cons_subset_cons _ (ihr _)
      | some target =>
        cases k with
        | zero => rw [trailSteps_stuck _ _ _ _ _ hl, trailSteps_stuck _ _ _ _ _ hl]; exact fun _ => id
        | succ k =>
          rw [trailSteps_follow _ _ _ _ _ _ hl, trailSteps_follow _ _ _ _ _ _ hl,
            ← List.append_assoc]
          exact List.cons_subset_cons _ (List.cons_subset_cons _ (ihj k _ _ rfl))

theorem ascend_goings (levels : Nat) (steps : List Step) :
    ascend levels (goings steps) = (ascend levels steps).map goings := by
  induction steps generalizing levels with
  | nil => cases levels <;> rfl
  | cons s rest ih =>
    cases levels with
    | zero => rw [ascend_zero, ascend_zero, Option.map_some]
    | succ levels =>
      cases s with
      | here => exact ih (levels + 1)
      | slash => exact ih (levels + 1)
      | up => exact ih levels
      | name n => rfl

theorem trail_subset_of_goings {ys : List Step} (ha : q.isAbsolute = p.isAbsolute)
    (hsteps : goings p.steps = goings q.steps ++ ys) : fs.trail q ⊆ fs.trail p := by
  have hsub : ∀ start zs ws, goings ws = goings zs ++ ys →
      fs.trailSteps maxLinks start zs ⊆ fs.trailSteps maxLinks start ws := by
    intro start zs ws hws
    rw [← trailSteps_goings fs maxLinks start ws, hws, ← trailSteps_goings fs maxLinks start zs]
    exact trailSteps_subset_append _ _ _ _
  rw [trail, trail, origin?, origin?, originOf, originOf, ha]
  cases hp : p.isAbsolute with
  | true => exact hsub [] q.steps p.steps hsteps
  | false =>
    rw [if_neg (by decide), if_neg (by decide)]
    cases hq : ascend fs.lostLevels q.steps with
    | none =>
      refine List.cons_subset.mpr ⟨?_, List.nil_subset _⟩
      cases ascend fs.lostLevels p.steps with
      | none => exact List.mem_singleton_self _
      | some ws => exact start_mem_trailSteps ..
    | some zs =>
      have hgo : ascend fs.lostLevels (goings p.steps) = some (goings zs ++ ys) := by
        rw [hsteps]
        exact ascend_append _ _ _ _ (by rw [ascend_goings, hq]; rfl)
      rw [ascend_goings, Option.map_eq_some_iff] at hgo
      obtain ⟨ws, hws, hgo⟩ := hgo
      rw [hws]
      exact hsub _ zs ws hgo

theorem trail_subset_of_mem_parents {root : Path} {s : String} (hs : IsEntryName (Utf8.encode s))
    (hq : q ∈ (root / s).parents) : fs.trail q ⊆ fs.trail root := by
  obtain ⟨first, rest, hparts, rfl⟩ : ∃ first rest, root.components = first ++ rest ∧
      q = Path.ofComponents root.isAbsolute first := by
    rw [Path.parents_entry root s hs] at hq
    rcases List.mem_cons.mp hq with rfl | hq
    · exact ⟨root.components, [], (List.append_nil _).symm, rfl⟩
    · have h := Path.exists_of_mem_shorter hq
      rwa [List.reverse_reverse] at h
  have hcomponents : ∀ t ∈ first, Path.IsComponent t := by
    intro t ht
    apply Path.isComponent_of_mem_moves root t
    apply Path.mem_components root t
    rw [hparts]
    exact List.mem_append_left _ ht
  apply trail_subset_of_goings (Path.isAbsolute_ofComponents _ _ hcomponents)
  rw [Path.goings_steps, hparts, Path.goings_append, Path.steps_ofComponents _ _ hcomponents]

end Parents

/-- Whether making the entry `n` of the directory `root` anew may change a location: it is at the place of
the entry or below, or it is missing and on the way. -/
def MayChange (fs : FileSystem) (root : Path) (n : Name) (u : Location) : Prop :=
  fs.place root n <+: u ∨ fs.entry? u = none ∧ u ∈ fs.trail root

instance (fs : FileSystem) (root : Path) (n : Name) (u : Location) :
    Decidable (fs.MayChange root n u) :=
  inferInstanceAs (Decidable (_ ∨ _))

/-- Whether the way to the directory `root` does not pass through the entry `s`, at whose place nothing
stands if the entry is not found. -/
structure OwnWay (fs : FileSystem) (root : Path) (s : String) : Prop where
  avoids : ∀ u ∈ fs.trail root, ¬ fs.place root (Utf8.encode s) <+: u
  missing : fs.inspect (root / s) = .error (.system .noEntry) →
    fs.entry? (fs.place root (Utf8.encode s)) = none

section Reset

variable {fs fs' : FileSystem} {root p : Path} {s : String} {v : Location} {u : Unit}

theorem entry?_place_of_find {l : Location} {e : DirEntry} (hs : IsEntryName (Utf8.encode s))
    (hf : fs.find .inspect (root / s) = .ok (some l, e)) :
    l = fs.place root (Utf8.encode s) ∧ fs.entry? (fs.place root (Utf8.encode s)) = some e := by
  obtain ⟨_, w, hr, _, hl, he⟩ := find_entry (.inl rfl) hs hf
  obtain rfl := Option.some.inj hl
  rw [place, hr.destination_eq]
  exact ⟨rfl, he⟩

theorem IsNewDir.mayChange (hs : IsEntryName (Utf8.encode s)) (htrail : fs'.trail root = fs.trail root)
    (hlink : fs'.linkAt? (fs.place root (Utf8.encode s)) = none)
    (hnew : IsNewDir fs fs' ((root / s) :: (root / s).parents) v) :
    fs.MayChange root (Utf8.encode s) v := by
  obtain ⟨hnone, q, hq, hf⟩ := hnew
  obtain ⟨_, ⟨k, hr⟩, _⟩ := find_follow_iff.mp hf
  rcases List.mem_cons.mp hq with rfl | hq
  · obtain ⟨_, w, hroot, _, hleads⟩ := (reaches_entry_iff hs).mp hr
    obtain rfl : fs.destination root = w := by
      rw [← destination_congr htrail, hroot.destination_eq]
    obtain ⟨_, rfl⟩ := hleads.eq_of_name hlink
    exact .inl List.prefix_rfl
  · refine .inr ⟨hnone, ?_⟩
    rw [← htrail]
    exact trail_subset_of_mem_parents hs hq hr.mem_trail

/-- If the entry is there and the root does not go up, no directory is made on the way. -/
private theorem IsNewDir.below_place (hs : IsEntryName (Utf8.encode s)) (hup : Step.up ∉ root.moves)
    (hplace : fs.entry? (fs.place root (Utf8.encode s)) ≠ none)
    (h : resetDir (root / s) fs = .ok u fs') (hnone : fs.entry? v = none)
    (hdir : fs'.entry? v = some .dir) : fs.place root (Utf8.encode s) <+: v := by
  have hne : fs'.entry? v ≠ fs.entry? v := by
    rw [hnone, hdir]
    exact Option.some_ne_none _
  have hconfined := resetDir_confined fs hs hup
  rw [h] at hconfined
  rcases hconfined with rfl | ⟨_, hconfined⟩
  · exact absurd rfl hne
  · obtain ⟨_, hl, hv | ⟨hv, _⟩⟩ := (hconfined.entry? v).resolve_left hne
    · rwa [List.mem_singleton.mp hl] at hv
    · rw [List.mem_singleton.mp hl] at hv
      exact absurd (entry?_below_none fs _ _ hnone hv) hplace

theorem entry?_of_resetDir (hs : IsEntryName (Utf8.encode s))
    (hway : Step.up ∉ root.moves ∨ fs.OwnWay root s) (h : resetDir (root / s) fs = .ok u fs')
    (hv : ¬ fs.MayChange root (Utf8.encode s) v) : fs'.entry? v = fs.entry? v := by
  have hbytes : (root / s).bytes ≠ [] := Path.bytes_ne_nil_of_steps (Path.steps_entry root s hs)
  rcases (madeAnew_of_resetDir hbytes h).outside v with heq | ⟨l, e, hf, hl⟩ | hnew
  · exact heq
  · rw [(entry?_place_of_find hs hf).1] at hl
    exact absurd (.inl hl) hv
  · refine absurd ?_ hv
    rcases hway with hup | hown
    · by_cases hplace : fs.entry? (fs.place root (Utf8.encode s)) = none
      · -- Then there is nothing to remove.
        have hmake : makeDirs (root / s) fs = .ok u fs' := by
          rw [resetDir] at h
          split at h
          · rename_i hinspect
            obtain ⟨l?, hf⟩ := inspect_ok hinspect
            obtain ⟨_, _, _, _, rfl, _⟩ := find_entry (.inl rfl) hs hf
            rw [(entry?_place_of_find hs hf).2] at hplace
            cases hplace
          · exact h
          · cases h
        have hgrows := grows_makeDirs (root / s) fs
        rw [hmake] at hgrows
        refine hnew.mayChange hs (trail_congr (.inr hgrows.sameStart) fun w _ => hgrows.linkAt? w) ?_
        rw [hgrows.linkAt?, linkAt?, hplace]
      · obtain ⟨hnone, _, _, hf⟩ := hnew
        exact .inl (IsNewDir.below_place hs hup hplace h hnone (find_follow_iff.mp hf).2.2)
    · have hspares := resetDir_spares hs hown.avoids
      rw [h] at hspares
      obtain ⟨_, _, hlinks⟩ := resetDir_opens hs hown.avoids hown.missing h
      exact hnew.mayChange hs (hspares.trail_eq hown.avoids) (hlinks _ List.prefix_rfl)

theorem spares_of_resetDir (hs : IsEntryName (Utf8.encode s))
    (hway : Step.up ∉ root.moves ∨ fs.OwnWay root s) (h : resetDir (root / s) fs = .ok u fs') :
    Spares (fs.place root (Utf8.encode s) <+: ·) fs fs' ∧
      ∀ v, fs.place root (Utf8.encode s) <+: v →
        fs'.entry? v = none ∨ fs'.entry? v = some .dir := by
  rcases hway with hup | hown
  · obtain ⟨_, home, hnew⟩ := resetDir_spec hs hup h
    refine ⟨⟨fun v hv => ?_, hnew.start.imp_right And.left⟩, hnew.inside⟩
    exact (hnew.apart v hv).imp_right fun hmade => ⟨hmade.1, hmade.2.1⟩
  · have hspares := resetDir_spares hs hown.avoids
    obtain ⟨made, hmade, hgrows⟩ := resetDir_swept hs (leadsBack_of_avoids hown.avoids)
    rw [h] at hspares hgrows hmade
    refine ⟨hspares, fun v hv => ?_⟩
    have hinside : made.entry? v = none ∨ made.entry? v = some .dir := by
      rcases hmade with ⟨rfl, hinspect | ⟨_, hfail⟩⟩ | ⟨k, w, hr, _, hswept⟩
      · exact .inl (entry?_below_none _ _ v (hown.missing hinspect) hv)
      · cases hfail
      · rw [place, hr.destination_eq] at hv
        by_cases hne : v = w ++ [Utf8.encode s]
        · rw [hne]
          exact hswept.self
        · exact .inl (hswept.below v hv hne)
    change Grows made fs' at hgrows
    rcases hgrows.entry? v with heq | ⟨_, hdir⟩
    · rwa [heq]
    · exact .inr hdir

theorem meets_workingDir (ha : p.isAbsolute = false) : fs.Meets p fs.workingDir := by
  obtain ⟨later, htrail⟩ : ∃ later, fs.trail p = fs.workingDir :: later := by
    rw [trail, origin?, originOf, ha, if_neg (by decide)]
    cases ascend fs.lostLevels p.steps with
    | none => exact ⟨[], rfl⟩
    | some steps => exact exists_trailSteps ..
  exact ⟨[], later, htrail, by simp⟩

/-- A look-up that meets nothing that may change sees no change. -/
theorem same_of_resetDir (hs : IsEntryName (Utf8.encode s))
    (hway : Step.up ∉ root.moves ∨ fs.OwnWay root s) (h : resetDir (root / s) fs = .ok u fs')
    (hp : ∀ v, fs.Meets p v → ¬ fs.MayChange root (Utf8.encode s) v) :
    (p.isAbsolute = true ∨ SameStart fs fs') ∧
      ∀ v, fs.Meets p v → fs'.entry? v = fs.entry? v := by
  refine ⟨?_, fun v hv => entry?_of_resetDir hs hway h (hp v hv)⟩
  cases ha : p.isAbsolute with
  | true => exact .inl rfl
  | false =>
    refine .inr ((spares_of_resetDir hs hway h).1.start.resolve_right fun hw => ?_)
    exact hp _ (meets_workingDir ha) (.inl hw)

/-- Whether a path leads to no file as long as no link stands where the entry `n` of the directory `root`
is made anew, nor below: not even where missing names count as directories. -/
structure MissesFile (fs : FileSystem) (root : Path) (n : Name) (p : Path) : Prop where
  start : p.isAbsolute = true ∨ ¬ fs.place root n <+: fs.workingDir
  linkAt? : ∀ u ∈ fs.trail p, fs.place root n <+: u → fs.linkAt? u = none
  noFile : ¬ IsFile (fs.entry? (fs.destination p))

theorem MissesFile.not_found {n : Name} {l : Location} {mode : Mode} {content : Bytes}
    (hp : fs.MissesFile root n p) : fs.find .follow p ≠ .ok (some l, .file mode content) := by
  intro hf
  obtain ⟨_, ⟨_, hr⟩, he⟩ := find_follow_iff.mp hf
  exact hp.noFile ⟨mode, content, by rw [hr.destination_eq, he]⟩

theorem MissesFile.isFile (hs : IsEntryName (Utf8.encode s))
    (hway : Step.up ∉ root.moves ∨ fs.OwnWay root s) (h : resetDir (root / s) fs = .ok u fs')
    (hp : fs.MissesFile root (Utf8.encode s) p) : fs.isFile p = false ∧ fs'.isFile p = false := by
  obtain ⟨hspares, hinside⟩ := spares_of_resetDir hs hway h
  have htrail : fs'.trail p = fs.trail p := by
    refine trail_congr ?_ fun v hv => ?_
    · rcases hp.start with ha | hw
      · exact .inl ha
      · exact .inr (hspares.start.resolve_right hw)
    · by_cases hplace : fs.place root (Utf8.encode s) <+: v
      · rw [hp.linkAt? v hv hplace, FileSystem.linkAt?]
        rcases hinside v hplace with hnone | hdir
        · rw [hnone]
        · rw [hdir]
      · exact hspares.linkAt? hplace
  have hdest : fs'.destination p = fs.destination p := destination_congr htrail
  constructor
  · refine Bool.eq_false_iff.mpr fun hfile => ?_
    obtain ⟨_, _, _, hf⟩ := isFile_iff.mp hfile
    exact hp.not_found hf
  · refine Bool.eq_false_iff.mpr fun hfile => ?_
    obtain ⟨l, mode, content, hf⟩ := isFile_iff.mp hfile
    obtain ⟨_, ⟨_, hr⟩, he⟩ := find_follow_iff.mp hf
    rw [← hr.destination_eq, hdest] at he
    by_cases hplace : fs.place root (Utf8.encode s) <+: fs.destination p
    · rcases hinside _ hplace with hnone | hdir
      · rw [hnone] at he
        cases he
      · rw [hdir] at he
        cases he
    · rcases hspares.entry? _ hplace with heq | ⟨_, hdir⟩
      · exact hp.noFile ⟨mode, content, heq.symm.trans he⟩
      · rw [hdir] at he
        cases he

/-- Whether looking for a file at a path is no matter of making the entry `n` of the directory `root`
anew. -/
def Untouched (fs : FileSystem) (root : Path) (n : Name) (p : Path) : Prop :=
  (∀ u, fs.Meets p u → ¬ fs.MayChange root n u) ∨ fs.MissesFile root n p

theorem Untouched.of_avoids {n : Name} (h : ∀ u ∈ fs.trail p, ¬ fs.MayChange root n u) :
    fs.Untouched root n p := by
  refine .inl fun u ⟨earlier, later, htrail, _⟩ => h u ?_
  rw [htrail]
  simp

theorem Untouched.isFile (hs : IsEntryName (Utf8.encode s))
    (hway : Step.up ∉ root.moves ∨ fs.OwnWay root s) (h : resetDir (root / s) fs = .ok u fs')
    (hp : fs.Untouched root (Utf8.encode s) p) : fs'.isFile p = fs.isFile p := by
  rcases hp with hunmet | hmisses
  · obtain ⟨hstart, hsame⟩ := same_of_resetDir hs hway h hunmet
    exact isFile_of_meets hstart hsame
  · obtain ⟨hbefore, hafter⟩ := hmisses.isFile hs hway h
    rw [hbefore, hafter]

end Reset

end FileSystem

end LaunchDist
