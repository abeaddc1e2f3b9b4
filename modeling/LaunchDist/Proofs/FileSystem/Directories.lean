import LaunchDist.Proofs.FileSystem.Reach
/-!
# Making directories

Making a directory with its parents plants a chain of new directories below one that was there, if the
path does not go up. Nothing else changes.
-/
namespace LaunchDist

namespace FileSystem

open LaunchDist.Path (Step namesOf IsEntryName IsComponent)

/-- The state with a chain of new directories below a location. -/
def plant (fs : FileSystem) (v : Location) : List Name → FileSystem
  | [] => fs
  | n :: rest => (fs.put (v ++ [n]) .empty).plant (v ++ [n]) rest

section Plant

variable {fs : FileSystem} {v : Location} {n : Name} {ns : List Name}

theorem entry?_put_empty (h : Free fs v n) (u : Location) :
    entry? (fs.put (v ++ [n]) .empty) u = if u = v ++ [n] then some .dir else fs.entry? u := by
  rw [entry?_put _ _ _ _ (by simp) (by rw [List.dropLast_concat]; exact h.isDirAt) (fun _ => rfl)]
  by_cases hu : u = v ++ [n]
  · rw [if_pos hu, if_pos hu]
    rfl
  · rw [if_neg hu, if_neg hu]
    by_cases hp : v ++ [n] <+: u
    · rw [if_pos hp, entry?_below_none fs _ u h.entry? hp]
    · rw [if_neg hp]

theorem sameStart_plant (fs : FileSystem) (v : Location) (ns : List Name) :
    SameStart fs (fs.plant v ns) := by
  induction ns generalizing fs v with
  | nil => exact ⟨rfl, rfl⟩
  | cons n ns ih =>
    obtain ⟨hw, hl⟩ := ih (fs.put (v ++ [n]) .empty) (v ++ [n])
    exact ⟨hw.trans (workingDir_put ..), hl.trans (lostLevels_put ..)⟩

theorem plant_concat (fs : FileSystem) (v : Location) (ns : List Name) (n : Name) :
    fs.plant v (ns ++ [n]) = (fs.plant v ns).put (v ++ ns ++ [n]) .empty := by
  induction ns generalizing fs v with
  | nil => rw [List.nil_append, List.append_nil]; rfl
  | cons m ns ih =>
    rw [List.cons_append, plant, ih, plant, List.append_assoc v [m] ns]
    rfl

/-- Where a chain of directories can be planted: its first name is free. -/
structure Plantable (fs : FileSystem) (v : Location) (ns : List Name) : Prop where
  isDirAt : ns ≠ [] → fs.isDirAt v
  entry? : ∀ n ∈ ns.head?, fs.entry? (v ++ [n]) = none
  length_le : ∀ n ∈ ns, n.length ≤ maxNameLength

theorem plantable_nil (fs : FileSystem) (v : Location) : Plantable fs v [] :=
  ⟨fun h => absurd rfl h, by simp, by simp⟩

theorem Plantable.free (h : Plantable fs v (n :: ns)) : Free fs v n :=
  ⟨h.isDirAt (List.cons_ne_nil _ _), h.entry? n rfl, h.length_le n List.mem_cons_self⟩

theorem Plantable.tail (h : Plantable fs v (n :: ns)) :
    Plantable (fs.put (v ++ [n]) .empty) (v ++ [n]) ns := by
  refine ⟨fun _ => ?_, fun m _ => ?_, fun m hm => h.length_le m (List.mem_cons_of_mem _ hm)⟩
  · rw [FileSystem.isDirAt_iff, entry?_put_empty h.free, if_pos rfl]
  · rw [entry?_put_empty h.free, if_neg (by simp)]
    exact entry?_below_none fs _ _ h.free.entry? (List.prefix_append _ _)

private theorem strictly_between_iff (v u : Location) (n : Name) (ns : List Name) :
    v <+: u ∧ u ≠ v ∧ u <+: v ++ n :: ns ↔ v ++ [n] <+: u ∧ u <+: v ++ [n] ++ ns := by
  rw [List.append_assoc, List.singleton_append]
  constructor
  · rintro ⟨⟨r, rfl⟩, hne, hu⟩
    cases r with
    | nil => exact absurd (List.append_nil v) hne
    | cons m r =>
      obtain ⟨rfl, -⟩ := List.cons_prefix_cons.mp ((List.prefix_append_right_inj v).mp hu)
      exact ⟨by simp, hu⟩
  · rintro ⟨h, hu⟩
    refine ⟨(List.prefix_append _ _).trans h, ?_, hu⟩
    rintro rfl
    exact absurd h.length_le (by simp)

theorem entry?_plant (h : Plantable fs v ns) (u : Location) :
    entry? (fs.plant v ns) u =
      if v <+: u ∧ u ≠ v ∧ u <+: v ++ ns then some .dir else fs.entry? u := by
  induction ns generalizing fs v with
  | nil =>
    rw [plant, if_neg]
    rintro ⟨hv, hne, hu⟩
    rw [List.append_nil] at hu
    exact hne (hu.eq_of_length_le hv.length_le)
  | cons n ns ih =>
    rw [plant, ih h.tail, entry?_put_empty h.free]
    simp only [strictly_between_iff]
    by_cases hn : u = v ++ [n]
    · subst hn
      rw [if_neg (fun hc => hc.2.1 rfl), if_pos rfl, if_pos ⟨List.prefix_refl _, List.prefix_append _ _⟩]
    · by_cases hu : v ++ [n] <+: u ∧ u <+: v ++ [n] ++ ns
      · rw [if_pos ⟨hu.1, hn, hu.2⟩, if_pos hu]
      · rw [if_neg (fun hc => hu ⟨hc.1, hc.2.2⟩), if_neg hn, if_neg hu]

theorem Plantable.entry?_eq_none (h : Plantable fs v ns) (u : Location) (hv : v <+: u) (hne : u ≠ v)
    (hu : u <+: v ++ ns ∨ v ++ ns <+: u) (hns : ns ≠ []) : fs.entry? u = none := by
  obtain ⟨n, ns, rfl⟩ := List.exists_cons_of_ne_nil hns
  apply entry?_below_none fs _ u h.free.entry?
  rcases hu with hu | hu
  · exact ((strictly_between_iff v u n ns).mp ⟨hv, hne, hu⟩).1
  · exact (by simp : v ++ [n] <+: v ++ n :: ns).trans hu

theorem Plantable.concat (h : Plantable fs v ns) (hn : Free (fs.plant v ns) (v ++ ns) n) :
    Plantable fs v (ns ++ [n]) := by
  cases ns with
  | nil =>
    rw [plant, List.append_nil] at hn
    refine ⟨fun _ => hn.isDirAt, fun m hm => ?_, fun m hm => ?_⟩
    · obtain rfl := Option.some.inj hm
      exact hn.entry?
    · obtain rfl := List.mem_singleton.mp hm
      exact hn.length_le
  | cons m ns =>
    refine ⟨fun _ => h.free.isDirAt, fun m hm => ?_, fun m' hm => ?_⟩
    · obtain rfl := Option.some.inj hm
      exact h.free.entry?
    · rcases List.mem_append.mp hm with hm | hm
      · exact h.length_le m' hm
      · obtain rfl := List.mem_singleton.mp hm
        exact hn.length_le

theorem entry?_plant_cases (h : Plantable fs v ns) (u : Location) :
    entry? (fs.plant v ns) u = fs.entry? u ∨
      fs.entry? u = none ∧ entry? (fs.plant v ns) u = some .dir ∧ v <+: u ∧ u ≠ v ∧ u <+: v ++ ns := by
  rw [entry?_plant h]
  by_cases hu : v <+: u ∧ u ≠ v ∧ u <+: v ++ ns
  · rw [if_pos hu]
    refine .inr ⟨?_, rfl, hu⟩
    apply h.entry?_eq_none u hu.1 hu.2.1 (.inl hu.2.2)
    rintro rfl
    rw [List.append_nil] at hu
    exact hu.2.1 (hu.2.2.eq_of_length_le hu.1.length_le)
  · rw [if_neg hu]
    exact .inl rfl

theorem linkAt?_plant (h : Plantable fs v ns) (u : Location) :
    (fs.plant v ns).linkAt? u = fs.linkAt? u := by
  rcases entry?_plant_cases h u with he | ⟨hn, hd, _⟩
  · exact linkAt?_congr he
  · rw [linkAt?, linkAt?, hn, hd]

theorem keeps_plant (h : Plantable fs v ns) : Keeps fs (fs.plant v ns) := by
  intro u hu
  rcases entry?_plant_cases h u with he | ⟨hn, _⟩
  · rw [he]
  · exact absurd hn hu

theorem leads_plant (h : Plantable fs v ns) (k : Nat) :
    Leads (fs.plant v ns) k v (ns.map .name) k (v ++ ns) := by
  by_cases hns : ns = []
  · subst hns
    rw [List.append_nil]
    exact .done k v
  · have hend : entry? (fs.plant v ns) (v ++ ns) = some .dir := by
      rw [entry?_plant h, if_pos ⟨List.prefix_append _ _, by simpa using hns, List.prefix_refl _⟩]
    apply leads_names ns h.length_le
    · rw [hend]
      exact Option.some_ne_none _
    · exact linkAt?_of_isDirAt ((isDirAt_iff _ _).mpr hend)

theorem entry?_plant_below (h : Plantable fs v ns) (hns : ns ≠ []) (u : Location)
    (hu : v ++ ns <+: u) (hne : u ≠ v ++ ns) : entry? (fs.plant v ns) u = none := by
  rw [entry?_plant h, if_neg]
  · apply h.entry?_eq_none u ((List.prefix_append _ _).trans hu) ?_ (.inr hu) hns
    rintro rfl
    have hle := hu.length_le
    rw [List.length_append] at hle
    exact hns (List.length_eq_zero_iff.mp (by omega))
  · rintro ⟨_, _, hu'⟩
    exact hne (hu'.eq_of_length_le hu.length_le)

end Plant

/-- Where steps that do not go up start. -/
def startOf (fs : FileSystem) (absolute : Bool) : Location :=
  if absolute then [] else fs.workingDir

theorem originOf_eq_start (fs : FileSystem) (absolute : Bool) (steps : List Step)
    (h : absolute = true ∨ fs.lostLevels = 0) :
    fs.originOf absolute steps = some (fs.startOf absolute, steps) := by
  cases absolute with
  | true => rfl
  | false =>
    rw [originOf, if_neg (by decide), h.resolve_left (by decide), ascend_zero]
    rfl

theorem not_lost_of_originOf {fs : FileSystem} {absolute : Bool} {steps : List Step}
    (hup : Step.up ∉ steps) (h : fs.originOf absolute steps ≠ none) :
    absolute = true ∨ fs.lostLevels = 0 := by
  cases absolute with
  | true => exact .inl rfl
  | false =>
    right
    by_contra hl
    obtain ⟨levels, hl⟩ := Nat.exists_eq_succ_of_ne_zero hl
    rw [originOf, if_neg (by decide), hl, ascend_of_up_notMem _ _ hup] at h
    exact h rfl

section MakeDir

variable {fs fs' : FileSystem} {q : Path} {n : Name} {xs : List Step}

/-- A directory is made at the path, or one is there. -/
def Ensures (fs : FileSystem) (q : Path) (fs' : FileSystem) : Prop :=
  fs.makeDir q = .ok fs' ∨ fs.isDir q ∧ fs' = fs

theorem makeDir_spec (h : fs.makeDir q = .ok fs') :
    ∃ v n, fs.locate .directory q = .ok (.vacant v n) ∧ fs' = fs.put (v ++ [n]) .empty := by
  rw [makeDir] at h
  split at h
  · rename_i v n hloc
    exact ⟨v, n, hloc, (Except.ok.inj h).symm⟩
  · cases h
  · cases h

theorem locate_of_makeDir_noEntry (h : fs.makeDir q = .error (.system .noEntry)) :
    fs.locate .directory q = .error (.system .noEntry) := by
  rw [makeDir] at h
  split at h
  · cases h
  · cases h
  · rename_i e hloc
    rw [hloc, Except.error.inj h]

theorem Ensures.nameable (h : Ensures fs q fs') : Nameable q := by
  rcases h with h | ⟨h, _⟩
  · obtain ⟨v, n, hloc, _⟩ := makeDir_spec h
    exact nameable_of_locate hloc
  · obtain ⟨l, hf⟩ := find_of_isDir h
    exact nameable_of_find hf

theorem Ensures.sameStart (h : Ensures fs q fs') : SameStart fs fs' := by
  rcases h with h | ⟨_, rfl⟩
  · obtain ⟨v, n, _, rfl⟩ := makeDir_spec h
    exact sameStart_put ..
  · exact ⟨rfl, rfl⟩

/-- What is made or found behind the steps before a name. -/
theorem Ensures.spec (hq : q.steps = xs ++ [.name n]) (h : Ensures fs q fs') :
    ∃ k v, fs.ReachesAlong q.isAbsolute xs k v ∧
      (Free fs v n ∧ fs' = fs.put (v ++ [n]) .empty ∨
        fs' = fs ∧ fs.isDir q ∧ ∃ k' w, Leads fs k v [.name n] k' w ∧ fs.isDirAt w) := by
  rcases h with h | ⟨h, rfl⟩
  · obtain ⟨u, m, hloc, rfl⟩ := makeDir_spec h
    obtain ⟨k, v, hx, hv, hs⟩ := reaches_before (by decide) hq hloc
    refine ⟨k, v, hx, .inl ?_⟩
    obtain ⟨_, hlen, hspot⟩ := (lookupSteps_lastName (.inr rfl)).mp hs
    obtain ⟨he, rfl, rfl⟩ := eq_of_vacant hspot
    exact ⟨⟨hv, he, hlen⟩, rfl⟩
  · obtain ⟨l?, hf⟩ := find_of_isDir h
    have hnames : namesOf q.steps ≠ [] := by rw [hq, Path.namesOf_append]; simp [namesOf]
    obtain ⟨l, rfl, _⟩ := location_of_find (by decide) hnames hf
    obtain ⟨_, ⟨k', hr⟩, he⟩ := find_follow_iff.mp hf
    rw [Reaches, hq] at hr
    obtain ⟨k, v, hx, hl⟩ := hr.split (fun _ => rfl)
    exact ⟨k, v, hx, .inr ⟨rfl, h, k', l, hl, (isDirAt_iff _ _).mpr he⟩⟩

theorem Ensures.eq_of_no_name (hq : q.steps = [] ∨ q.steps = [.here]) (h : Ensures fs q fs') :
    fs' = fs := by
  rcases h with h | ⟨_, rfl⟩
  · obtain ⟨v, n, hloc, _⟩ := makeDir_spec h
    have hup : Step.up ∉ q.steps := by rcases hq with hq | hq <;> simp [hq]
    rcases origin?_of_locate (by decide) hloc with ⟨start, steps, ho, hs⟩ | ⟨hspot, _⟩
    · have hlost := not_lost_of_originOf hup (show fs.originOf _ _ ≠ none by
        rw [show fs.originOf _ _ = _ from ho]; exact Option.some_ne_none _)
      rw [origin?, originOf_eq_start fs _ _ hlost] at ho
      cases ho
      rcases hq with hq | hq
      · rw [hq, lookupSteps_nil] at hs
        cases hs
      · rw [hq, lookupSteps_stay _ _ _ _ _ _ (.inl rfl), lookupSteps_nil] at hs
        by_cases hd : fs.isDirAt (fs.startOf q.isAbsolute)
        · rw [if_pos hd] at hs
          cases hs
        · rw [if_neg hd] at hs
          cases hs
    · cases hspot
  · rfl

end MakeDir

section MakeDirs

variable {fs fs' : FileSystem} {q : Path} {u : Unit}

theorem makeDirAfter_ok {makeParent : Change Unit} (h : makeDirAfter q makeParent fs = .ok u fs') :
    q.bytes = [] ∧ fs' = fs ∨
      ∃ made, (made = fs ∨ makeParent fs = .ok () made) ∧ Ensures made q fs' := by
  rw [makeDirAfter] at h
  by_cases hb : q.bytes = []
  · rw [if_pos hb] at h
    cases h
    exact .inl ⟨hb, rfl⟩
  · rw [if_neg hb] at h
    right
    split at h
    · rename_i fs1 hmake
      cases h
      exact ⟨fs, .inl rfl, .inl hmake⟩
    · split at h
      · cases h
      · rename_i made hparent
        refine ⟨made, .inr hparent, ?_⟩
        split at h
        · rename_i fs2 hmake
          cases h
          exact .inl hmake
        · by_cases hd : made.isDir q
          · rw [if_pos hd] at h
            cases h
            exact .inr ⟨hd, rfl⟩
          · rw [if_neg hd] at h
            cases h
    · by_cases hd : fs.isDir q
      · rw [if_pos hd] at h
        cases h
        exact ⟨fs, .inl rfl, .inr ⟨hd, rfl⟩⟩
      · rw [if_neg hd] at h
        cases h

/-- A directory that could not be made is not there. Its parents have been made, or have failed, if they
were what was missing. -/
theorem makeDirAfter_error_iff {makeParent : Change Unit} {e : FileFailure} :
    makeDirAfter q makeParent fs = .error e fs' ↔
      q.bytes ≠ [] ∧
        (fs' = fs ∧ e ≠ .system .noEntry ∧ fs.makeDir q = .error e ∧ ¬ fs.isDir q ∨
          fs.makeDir q = .error (.system .noEntry) ∧
            (makeParent fs = .error e fs' ∨
              makeParent fs = .ok () fs' ∧ fs'.makeDir q = .error e ∧ ¬ fs'.isDir q)) := by
  rw [makeDirAfter]
  by_cases hb : q.bytes = []
  · rw [if_pos hb]
    constructor
    · intro h
      cases h
    · intro h
      exact absurd hb h.1
  rw [if_neg hb]
  constructor
  · intro h
    refine ⟨hb, ?_⟩
    split at h
    · cases h
    · rename_i hmissing
      refine .inr ⟨hmissing, ?_⟩
      split at h
      · rename_i hparent
        cases h
        exact .inl hparent
      · rename_i made hparent
        split at h
        · cases h
        · rename_i hmake
          by_cases hd : made.isDir q
          · rw [if_pos hd] at h
            cases h
          · rw [if_neg hd] at h
            cases h
            exact .inr ⟨hparent, hmake, hd⟩
    · rename_i hother hmake
      by_cases hd : fs.isDir q
      · rw [if_pos hd] at h
        cases h
      · rw [if_neg hd] at h
        cases h
        exact .inl ⟨rfl, hother, hmake, hd⟩
  · rintro ⟨_, ⟨rfl, hother, hmake, hd⟩ | ⟨hmissing, hparent | ⟨hparent, hmake, hd⟩⟩⟩
    · split
      · rename_i hok
        rw [hmake] at hok
        cases hok
      · rename_i hmissing
        rw [hmake] at hmissing
        exact absurd (Except.error.inj hmissing) hother
      · rename_i hfail
        rw [if_neg hd, ← Except.error.inj (hmake.symm.trans hfail)]
    · rw [hmissing, hparent]
      rfl
    · rw [hmissing, hparent]
      simp only [hmake]
      exact if_neg hd

theorem SameStart.trans {fs'' : FileSystem} (h : SameStart fs fs') (h' : SameStart fs' fs'') :
    SameStart fs fs'' :=
  ⟨h'.1.trans h.1, h'.2.trans h.2⟩

theorem SameStart.symm (h : SameStart fs fs') : SameStart fs' fs :=
  ⟨h.1.symm, h.2.symm⟩

theorem sameStart_makeDirsFrom (ps : List Path) (h : makeDirsFrom q ps fs = .ok u fs') :
    SameStart fs fs' := by
  induction ps generalizing q fs' with
  | nil =>
    rcases makeDirAfter_ok h with ⟨_, rfl⟩ | ⟨made, rfl | hmade, hq⟩
    · exact ⟨rfl, rfl⟩
    · exact hq.sameStart
    · cases hmade
  | cons p ps ih =>
    rcases makeDirAfter_ok h with ⟨_, rfl⟩ | ⟨made, rfl | hmade, hq⟩
    · exact ⟨rfl, rfl⟩
    · exact hq.sameStart
    · exact (ih hmade).trans hq.sameStart

/-- How names lead to the place of a chain of new directories, and on along that chain. -/
structure Planted (fs : FileSystem) (start : Location) (ns pre post : List Name) (k : Nat)
    (v : Location) : Prop where
  names : ns = pre ++ post
  leads : Leads fs maxLinks start (pre.map .name) k v
  plantable : Plantable fs v post

theorem Planted.leads_plant {start v : Location} {ns pre post : List Name} {k : Nat}
    (h : Planted fs start ns pre post k v) :
    Leads (fs.plant v post) maxLinks start (ns.map .name) k (v ++ post) := by
  rw [h.names, List.map_append]
  exact (h.leads.mono (keeps_plant h.plantable)).append (FileSystem.leads_plant h.plantable k)

theorem Leads.entry?_name_ne_none {k k' : Nat} {v w : Location} {n : Name}
    (h : Leads fs k v [.name n] k' w) : fs.entry? (v ++ [n]) ≠ none := by
  cases h with
  | stay hs => simp at hs
  | enter _ _ he => exact he
  | follow _ _ hl => exact entry?_ne_none_of_linkAt? hl

/-- A path that takes the names, after a lead of no names, and does not go up before the last one. -/
structure Spells (q : Path) (absolute : Bool) (lead : List Step) (ns : List Name) : Prop where
  isAbsolute : q.isAbsolute = absolute
  nil : ns = [] → q.steps = lead
  last : ∀ ms n, ns = ms ++ [n] →
    ∃ xs, q.steps = xs ++ [.name n] ∧ namesOf xs = ms ∧ Step.up ∉ xs

theorem spells_ofComponents (absolute : Bool) {lead : List Step}
    (hlead : lead = [] ∨ lead = [.here]) {ns : List Name} (hns : ∀ n ∈ ns, IsEntryName n) :
    Spells (Path.ofComponents absolute (lead ++ ns.map .name)) absolute lead ns := by
  have hparts : ∀ s ∈ lead ++ ns.map .name, IsComponent s := by
    intro s hs
    rcases List.mem_append.mp hs with hs | hs
    · rcases hlead with rfl | rfl
      · cases hs
      · obtain rfl := List.mem_singleton.mp hs
        trivial
    · obtain ⟨m, hm, rfl⟩ := List.mem_map.mp hs
      exact hns m hm
  have hnames : namesOf lead = [] ∧ Step.up ∉ lead := by
    rcases hlead with rfl | rfl
    · exact ⟨rfl, by simp⟩
    · exact ⟨rfl, by simp⟩
  have hsteps := Path.steps_ofComponents absolute _ hparts
  refine ⟨Path.isAbsolute_ofComponents _ _ hparts, fun hnil => ?_, fun ms n hn => ?_⟩
  · rw [hsteps, hnil]
    exact List.append_nil _
  · refine ⟨lead ++ ms.map .name, ?_, ?_, ?_⟩
    · rw [hsteps, hn, List.map_append, List.append_assoc]
      rfl
    · rw [Path.namesOf_append, hnames.1, Path.namesOf_map_name, List.nil_append]
    · simp [hnames.2]

theorem makeDirsFrom_concat (q : Path) (absolute : Bool) (lead : List Step) (ns : List Name)
    (n : Name) :
    makeDirsFrom q (Path.shorter absolute (lead ++ (ns ++ [n]).map Step.name).reverse) =
      makeDirAfter q (makeDirsFrom (Path.ofComponents absolute (lead ++ ns.map .name))
        (Path.shorter absolute (lead ++ ns.map Step.name).reverse)) := by
  rw [List.map_append, ← List.append_assoc, List.reverse_append, List.map_singleton,
    List.reverse_singleton, List.singleton_append, Path.shorter, List.reverse_reverse]
  rfl

theorem eq_of_makeDirsFrom_lead {absolute : Bool} {lead : List Step}
    (hlead : lead = [] ∨ lead = [.here]) (hq : q.steps = lead)
    (h : makeDirsFrom q (Path.shorter absolute lead.reverse) fs = .ok u fs') : fs' = fs := by
  have hempty : ∀ (p : Path) (u : Unit) (made : FileSystem), p.steps = [] →
      makeDirsFrom p [] fs = .ok u made → made = fs := by
    intro p u made hp hmade
    rcases makeDirAfter_ok hmade with ⟨_, rfl⟩ | ⟨_, rfl | hbad, hens⟩
    · rfl
    · exact hens.eq_of_no_name (.inl hp)
    · cases hbad
  rcases hlead with rfl | rfl
  · exact hempty q u fs' hq h
  · rcases makeDirAfter_ok h with ⟨_, rfl⟩ | ⟨made, rfl | hmade, hens⟩
    · rfl
    · exact hens.eq_of_no_name (.inr hq)
    · rw [hens.eq_of_no_name (.inr hq)]
      exact hempty _ () made (Path.steps_ofComponents _ _ (by simp)) hmade

/-- A directory made at the end of a chain makes the chain longer; one that is found there shows that
nothing had to be made. -/
private theorem Planted.concat {start v : Location} {ms pre post : List Name} {n : Name} {k : Nat}
    (hp : Planted fs start ms pre post k v)
    (hcase : Free (fs.plant v post) (v ++ post) n ∧
        fs' = (fs.plant v post).put (v ++ post ++ [n]) .empty ∨
      fs' = fs.plant v post ∧ (fs.plant v post).isDir q ∧
        ∃ k' w, Leads (fs.plant v post) k (v ++ post) [.name n] k' w ∧ (fs.plant v post).isDirAt w) :
    ∃ pre post k v, Planted fs start (ms ++ [n]) pre post k v ∧ fs' = fs.plant v post ∧
      (post = [] → fs.isDir q) := by
  rcases hcase with ⟨hfree, rfl⟩ | ⟨rfl, hdir, k', w, hn, _⟩
  · refine ⟨pre, post ++ [n], k, v, ⟨?_, hp.leads, hp.plantable.concat hfree⟩, ?_, fun hnil => ?_⟩
    · rw [hp.names, List.append_assoc]
    · exact (plant_concat ..).symm
    · simp at hnil
  · by_cases hpost : post = []
    · subst hpost
      rw [plant, List.append_nil] at hn
      have hnames : ms = pre := by rw [hp.names, List.append_nil]
      refine ⟨ms ++ [n], [], k', w, ⟨(List.append_nil _).symm, ?_, plantable_nil _ _⟩, rfl,
        fun _ => hdir⟩
      rw [List.map_append, hnames]
      exact hp.leads.append hn
    · exfalso
      exact hn.entry?_name_ne_none (entry?_plant_below hp.plantable hpost _
        (List.prefix_append _ _) (by simp))

theorem makeDirsFrom_spec (absolute : Bool) (lead : List Step)
    (hlead : lead = [] ∨ lead = [.here]) (ns : List Name) (hns : ∀ n ∈ ns, IsEntryName n)
    (hstart : absolute = true ∨ fs.lostLevels = 0) (hq : Spells q absolute lead ns)
    (h : makeDirsFrom q (Path.shorter absolute (lead ++ ns.map Step.name).reverse) fs = .ok u fs') :
    ∃ pre post k v, Planted fs (fs.startOf absolute) ns pre post k v ∧ fs' = fs.plant v post ∧
      (ns ≠ [] → post = [] → fs.isDir q) := by
  induction ns using List.reverseRecOn generalizing q fs' u with
  | nil =>
    rw [List.map_nil, List.append_nil] at h
    exact ⟨[], [], maxLinks, _, ⟨rfl, .done _ _, plantable_nil _ _⟩,
      eq_of_makeDirsFrom_lead hlead (hq.nil rfl) h, fun hne => absurd rfl hne⟩
  | append_singleton ms n ih =>
    have hms : ∀ m ∈ ms, IsEntryName m := fun m hm => hns m (List.mem_append_left _ hm)
    obtain ⟨xs, hsteps, rfl, hup⟩ := hq.last ms n rfl
    have hb := Path.bytes_ne_nil_of_steps hsteps
    rw [makeDirsFrom_concat] at h
    obtain ⟨made, hmade, hens⟩ := (makeDirAfter_ok h).resolve_left fun hc => hb hc.1
    have hsame : SameStart fs made := by
      rcases hmade with rfl | hmade
      · exact ⟨rfl, rfl⟩
      · exact sameStart_makeDirsFrom _ hmade
    obtain ⟨k, v, ⟨start, rest, ho, hl⟩, hcase⟩ := hens.spec hsteps
    have hstart' : fs.startOf absolute = made.startOf absolute := by rw [startOf, startOf, hsame.1]
    rw [hq.isAbsolute, originOf_eq_start made _ _ (by rw [hsame.2]; exact hstart), ← hstart'] at ho
    cases ho
    have hleads := leads_namesOf xs hup hl
    -- The parent is there, or is the end of the chain planted so far.
    obtain ⟨pre, post, k0, v0, hp, rfl, rfl, rfl⟩ : ∃ pre post k0 v0,
        Planted fs (fs.startOf absolute) (namesOf xs) pre post k0 v0 ∧ made = fs.plant v0 post ∧
          k0 = k ∧ v0 ++ post = v := by
      rcases hmade with rfl | hmade
      · exact ⟨namesOf xs, [], k, v, ⟨(List.append_nil _).symm, hleads, plantable_nil _ _⟩, rfl, rfl,
          List.append_nil v⟩
      · obtain ⟨pre, post, k0, v0, hp, hmade, _⟩ :=
          ih hms (spells_ofComponents absolute hlead hms) hmade
        have hend := hp.leads_plant
        rw [← hmade] at hend
        obtain ⟨rfl, rfl⟩ := hend.unique hleads
        exact ⟨pre, post, k0, v0, hp, hmade, rfl, rfl⟩
    obtain ⟨pre', post', k', v', hp', hfs, hdir⟩ := hp.concat hcase
    exact ⟨pre', post', k', v', hp', hfs, fun _ => hdir⟩

theorem isEntryName_of_mem_moves {root : Path} {n : Name} (h : n ∈ namesOf root.moves) :
    IsEntryName n := by
  rw [namesOf, List.mem_filterMap] at h
  obtain ⟨step, hstep, heq⟩ := h
  cases step with
  | name m =>
    obtain rfl := Option.some.inj heq
    exact Path.isComponent_of_mem_moves root _ hstep
  | here => cases heq
  | up => cases heq
  | slash => cases heq

theorem exists_spells_entry {root : Path} {s : String} (hs : IsEntryName (Utf8.encode s))
    (hup : Step.up ∉ root.moves) :
    ∃ lead, (lead = [] ∨ lead = [.here]) ∧
      (∀ n ∈ namesOf root.moves ++ [Utf8.encode s], IsEntryName n) ∧
      Spells (root / s) root.isAbsolute lead (namesOf root.moves ++ [Utf8.encode s]) ∧
      makeDirs (root / s) = makeDirsFrom (root / s) (Path.shorter root.isAbsolute
        (lead ++ (namesOf root.moves ++ [Utf8.encode s]).map Step.name).reverse) := by
  obtain ⟨lead, hlead, hcomp⟩ := Path.components_of_up_notMem root hup
  refine ⟨lead, hlead, fun n hn => ?_, ⟨Path.isAbsolute_entry root s hs, by simp, fun ms n hm => ?_⟩, ?_⟩
  · rcases List.mem_append.mp hn with hn | hn
    · exact isEntryName_of_mem_moves hn
    · obtain rfl := List.mem_singleton.mp hn
      exact hs
  · obtain ⟨rfl, hn⟩ := List.append_inj' hm rfl
    obtain rfl := (List.cons.inj hn).1
    exact ⟨root.moves, Path.steps_entry root s hs, rfl, hup⟩
  · rw [makeDirs, Path.parents, Path.components_entry root s hs, Path.isAbsolute_entry root s hs, hcomp,
      List.append_assoc, List.map_append]
    rfl

/-- Making a directory below a path that does not go up plants what is missing on the way. -/
theorem makeDirs_spec {root : Path} {s : String} (hs : IsEntryName (Utf8.encode s))
    (hup : Step.up ∉ root.moves) (h : makeDirs (root / s) fs = .ok u fs') :
    Nameable (root / s) ∧ (root.isAbsolute = true ∨ fs.lostLevels = 0) ∧
      ∃ pre post k v, Planted fs (fs.startOf root.isAbsolute)
          (namesOf root.moves ++ [Utf8.encode s]) pre post k v ∧
        fs' = fs.plant v post ∧ (post = [] → fs.isDir (root / s)) := by
  obtain ⟨lead, hlead, hns, hspells, heq⟩ := exists_spells_entry hs hup
  rw [heq] at h
  obtain ⟨hname, hlost⟩ : Nameable (root / s) ∧ (root.isAbsolute = true ∨ fs.lostLevels = 0) := by
    rw [makeDirsFrom_concat] at h
    rcases makeDirAfter_ok h with ⟨hb, _⟩ | ⟨made, hmade, hens⟩
    · have hsteps := Path.steps_entry root s hs
      rw [Path.steps, Path.segments, hb] at hsteps
      exact absurd hsteps.symm (by simp [Path.step?])
    · have hsame : SameStart fs made := by
        rcases hmade with rfl | hmade
        · exact ⟨rfl, rfl⟩
        · exact sameStart_makeDirsFrom _ hmade
      obtain ⟨_, _, ⟨start, rest, ho, _⟩, _⟩ := hens.spec (Path.steps_entry root s hs)
      rw [Path.isAbsolute_entry root s hs] at ho
      have hlost := not_lost_of_originOf hup (by rw [ho]; exact Option.some_ne_none _)
      exact ⟨hens.nameable, by rwa [hsame.2] at hlost⟩
  refine ⟨hname, hlost, ?_⟩
  obtain ⟨pre, post, k, v, hp, hfs, hd⟩ :=
    makeDirsFrom_spec root.isAbsolute lead hlead _ hns hlost hspells h
  exact ⟨pre, post, k, v, hp, hfs, hd (by simp)⟩

end MakeDirs

end FileSystem

end LaunchDist
