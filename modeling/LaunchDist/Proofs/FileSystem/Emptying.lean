import LaunchDist.Proofs.FileSystem.Listing
import LaunchDist.Proofs.FileSystem.Retrace
/-!
# What making a directory anew empties

A path that has been discarded leads to no directory. So the directory that is made next is a new one,
and empty, unless making its parents lets the path lead to another that was there: to `a/../b` there is
no way before `a` is made.
-/
namespace LaunchDist

namespace FileSystem

open LaunchDist.Path (Step namesOf IsEntryName)

/-- Whether a path names an empty directory, and not a link to one. -/
structure IsEmptyDir (fs : FileSystem) (p : Path) (l : Location) : Prop where
  directory : fs.find .directory p = .ok (some l, .dir)
  inspect : fs.inspect p = .ok .dir
  list : fs.list p = .ok []
  below : ∀ u, l <+: u → u ≠ l → fs.entry? u = none

section MakeDir

variable {fs fs' : FileSystem} {p : Path}

theorem isEmptyDir_of_makeDir (h : fs.makeDir p = .ok fs') : ∃ l, IsEmptyDir fs' p l := by
  have hgrows := grows_makeDir h
  obtain ⟨v, n, hloc, rfl⟩ := makeDir_spec h
  have hfree := (free_of_vacant hloc).1
  obtain ⟨-, -, hspot⟩ | ⟨xs, m, ys, k, w, hp, hys, hx, -, -, hspot⟩ :=
    exists_lastName_of_locate (.inr rfl) hloc rfl
  · cases hspot
  obtain ⟨_, rfl, rfl⟩ := eq_of_vacant hspot
  have hself : entry? (fs.put (v ++ [n]) .empty) (v ++ [n]) = some .dir := by
    rw [entry?_put_empty hfree, if_pos rfl]
  have hfind : ∀ purpose, purpose ≠ .canonical → purpose ≠ .create →
      (fs.put (v ++ [n]) .empty).find purpose p = .ok (some (v ++ [n]), .dir) := by
    intro purpose hcan hcre
    have hspot := lookupSteps_lastDir (k := k) hcan hcre ((isDirAt_iff _ _).mpr hself) hfree.length_le
      (isLast_of_keepsLink hys)
    rw [find, locate_of_reachesAlong hcan (nameable_of_locate hloc) hp
      (hx.mono hgrows.keeps (.inr hgrows.sameStart)) hspot]
    simp only [hself]
  have hbelow : ∀ u, v ++ [n] <+: u → u ≠ v ++ [n] →
      entry? (fs.put (v ++ [n]) .empty) u = none := by
    intro u hu hne
    rw [entry?_put_empty hfree, if_neg hne]
    exact entry?_below_none fs _ u hfree.entry? hu
  refine ⟨v ++ [n], hfind _ (by decide) (by decide), ?_, ?_, hbelow⟩
  · rw [FileSystem.inspect, hfind _ (by decide) (by decide)]
    rfl
  · rw [FileSystem.list, hfind _ (by decide) (by decide)]
    refine congrArg Except.ok (List.eq_nil_iff_forall_not_mem.mpr fun m hm => ?_)
    exact (mem_namesAt_iff _ _ m).mp hm (hbelow _ (List.prefix_append _ _) (by simp))

end MakeDir

/-- What is left once a path has been discarded at which an entry stood. Then the path leads to no
directory, unless it has only left the removed directories. -/
structure Vacated (fs fs' : FileSystem) (p : Path) (l : Location) (e : DirEntry) : Prop where
  find : fs.find .inspect p = .ok (some l, e)
  swept : Swept fs fs' l
  gone : ¬ fs'.isDir p ∨ Step.up ∈ p.steps ∧ p.isAbsolute = false ∧ l = fs.workingDir

section Discard

variable {fs fs' : FileSystem} {p : Path} {l : Location} {e : DirEntry} {u : Unit}

theorem keeps_of_remove (hl : l ≠ []) : Keeps (fs.remove l) fs := by
  intro v hv
  rw [entry?_remove fs l v hl] at hv ⊢
  by_cases hp : l <+: v
  · rw [if_pos hp] at hv
    exact absurd rfl hv
  · rw [if_neg hp]

theorem endsInName_of_removeDir (h : fs.removeDir p = .ok fs') : ∃ n, p.lastStep? = some (.name n) := by
  rw [removeDir] at h
  split at h
  · cases h
  · split at h
    · cases h
    · cases h
    · rename_i hlast _
      exact ⟨_, hlast⟩
    · cases h
    · cases h

private theorem vacated_of_removeDir (hf : fs.find .inspect p = .ok (some l, .dir))
    (hd : fs.isDirAt l) (h : (fs.clear l).removeDir p = .ok fs') : Vacated fs fs' p l .dir := by
  obtain ⟨l', hf', rfl⟩ := removeDir_spec h
  obtain ⟨_, hr⟩ := reaches_of_find_dir (by decide) hf
  obtain ⟨_, hr'⟩ := reaches_of_find_dir (by decide) hf'
  obtain rfl := hr.of_withdrawn (keeps_of_clear hd) (withdrawn_clear fs l) hr'
  -- What is removed is an entry, so that it is not the root.
  obtain ⟨n, hlast⟩ := endsInName_of_removeDir h
  obtain ⟨xs, ys, hsteps, hys⟩ := exists_steps_of_lastStep? hlast
  obtain ⟨k, v, hx, hv, hs⟩ := reaches_before (by decide) hsteps (locate_of_find_some hf').1
  obtain ⟨_, rfl⟩ := eq_of_found ((lookupSteps_kept (.inr rfl) hys).mp hs).2.2
  refine ⟨hf, swept_clear_remove (by simp) hd, .inl ?_⟩
  refine not_isDir_of_gone hsteps (keeps_of_remove (by simp)) (withdrawn_remove _ _) hx ?_
  rw [entry?_remove _ _ _ (by simp), if_pos List.prefix_rfl]

private theorem vacated_of_removeTree {l? : Option Location}
    (hf : fs.find .inspect p = .ok (l?, .dir)) (h : removeTree p fs = .ok u fs') :
    ∃ l, Vacated fs fs' p l .dir := by
  rw [removeTree, hf] at h
  cases l? with
  | none =>
    -- A removed directory cannot be removed again.
    have hfound : fs.find .directory p = .ok (none, .dir) := by
      rcases locate_of_find hf with ⟨_, heq, _⟩ | ⟨_, hloc⟩
      · cases heq
      · obtain ⟨ho, hnames⟩ := origin?_of_removed (by decide) hloc
        rw [find, locate_removed (by decide) (nameable_of_locate hloc) ho hnames]
    simp only [Option.elim_none] at h
    split at h
    · rename_i hremove
      obtain ⟨l, hf', _⟩ := removeDir_spec hremove
      rw [hfound] at hf'
      cases hf'
    · rename_i hremove
      rw [removeDir_noEntry hremove] at hfound
      cases hfound
    · cases h
  | some l =>
    have hd : fs.isDirAt l := (isDirAt_iff _ _).mpr (locate_of_find_some hf).2
    simp only [Option.elim_some] at h
    refine ⟨l, ?_⟩
    split at h
    · rename_i hremove
      cases h
      exact vacated_of_removeDir hf hd hremove
    · rename_i hremove
      cases h
      exact ⟨hf, swept_clear hd,
        .inl (not_isDir_of_find_error (.inr rfl) (removeDir_noEntry hremove))⟩
    · cases h

private theorem vacated_of_unlink (hi : fs.inspect p = .ok e) (hne : e ≠ .dir)
    (h : fs.unlink p = .ok fs') : ∃ l, Vacated fs fs' p l e := by
  obtain ⟨l, e', hf, rfl⟩ := unlink_spec h
  obtain ⟨l?, hf'⟩ := inspect_ok hi
  rw [hf] at hf'
  cases hf'
  obtain ⟨hloc, he⟩ := locate_of_find_some hf
  have hnd : ¬ fs.isDirAt l := by
    rw [isDirAt_iff, he]
    exact fun hd => hne (Option.some.inj hd)
  have hl : l ≠ [] := by
    rintro rfl
    exact hnd (isDirAt_nil fs)
  refine ⟨l, hf, swept_remove hl, ?_⟩
  rcases exists_lastName_of_locate (.inl rfl) hloc hnd with
    ⟨hup, ha, hspot⟩ | ⟨xs, n, ys, k, v, hsteps, _, hx, _, _, hspot⟩
  · exact .inr ⟨hup, ha, Spot.found.inj hspot⟩
  · obtain ⟨_, rfl⟩ := eq_of_found hspot
    left
    refine not_isDir_of_gone hsteps (keeps_of_remove hl) (withdrawn_remove _ _) hx ?_
    rw [entry?_remove _ _ _ hl, if_pos List.prefix_rfl]

/-- What has been discarded stood at the path, and the path does not lead to a directory any more. -/
theorem vacated_of_discard (h : discard p fs = .ok u fs') : ∃ l e, Vacated fs fs' p l e := by
  rw [discard] at h
  split at h
  · rename_i hi
    obtain ⟨l?, hf⟩ := inspect_ok hi
    obtain ⟨l, hl⟩ := vacated_of_removeTree hf h
    exact ⟨l, _, hl⟩
  · rename_i e hne hi
    rw [Change.atomic] at h
    split at h
    · rename_i hunlink
      cases h
      obtain ⟨l, hl⟩ := vacated_of_unlink hi hne hunlink
      exact ⟨l, e, hl⟩
    · cases h
  · cases h

end Discard

/-- Whether a directory is new to which one of some paths leads. -/
def IsNewDir (fs fs' : FileSystem) (ps : List Path) (l : Location) : Prop :=
  fs.entry? l = none ∧ ∃ p ∈ ps, fs'.find .follow p = .ok (some l, .dir)

section MakeDirs

variable {fs fs' made : FileSystem} {p q : Path} {qs : List Path} {u : Unit}

theorem Ensures.entry? (h : Ensures fs q fs') (l : Location) :
    fs'.entry? l = fs.entry? l ∨ IsNewDir fs fs' [q] l := by
  rcases h with h | ⟨_, rfl⟩
  · obtain ⟨v, n, hloc, rfl⟩ := makeDir_spec h
    obtain ⟨hfree, hreaches⟩ := free_of_vacant hloc
    by_cases hl : l = v ++ [n]
    · have hself : FileSystem.entry? (fs.put (v ++ [n]) .empty) (v ++ [n]) = some .dir := by
        rw [entry?_put_empty hfree, if_pos rfl]
      subst hl
      exact .inr ⟨hfree.entry?, q, List.mem_singleton_self q,
        find_follow_iff.mpr ⟨nameable_of_locate hloc, hreaches, hself⟩⟩
    · rw [entry?_put_empty hfree, if_neg hl]
      exact .inl rfl
  · exact .inl rfl

theorem Grows.isNewDir {ps : List Path} {l : Location} (h : Grows made fs')
    (hl : IsNewDir fs made ps l) : IsNewDir fs fs' ps l := by
  obtain ⟨hnone, p, hp, hf⟩ := hl
  obtain ⟨hname, ⟨k, hr⟩, he⟩ := find_follow_iff.mp hf
  refine ⟨hnone, p, hp, find_follow_iff.mpr ⟨hname, ⟨k, hr.mono h.keeps (.inr h.sameStart)⟩, ?_⟩⟩
  rw [h.eq_of_ne_none (by rw [he]; exact Option.some_ne_none _), he]

/-- All that is made are directories to which the path or a parent of it leads. -/
theorem entry?_of_makeDirsFrom (h : makeDirsFrom q qs fs = .ok u fs') (l : Location) :
    fs'.entry? l = fs.entry? l ∨ IsNewDir fs fs' (q :: qs) l := by
  have hlast : ∀ {q fs'} (qs : List Path), Ensures fs q fs' →
      fs'.entry? l = fs.entry? l ∨ IsNewDir fs fs' (q :: qs) l := by
    intro q fs' qs hens
    refine (hens.entry? l).imp_right fun ⟨hnone, r, hr, hf⟩ => ⟨hnone, r, ?_, hf⟩
    rw [List.mem_singleton.mp hr]
    exact List.mem_cons_self
  induction qs generalizing q fs' u with
  | nil =>
    rcases makeDirAfter_ok h with ⟨_, rfl⟩ | ⟨made, rfl | hmade, hens⟩
    · exact .inl rfl
    · exact hlast [] hens
    · cases hmade
  | cons r rs ih =>
    rcases makeDirAfter_ok h with ⟨_, rfl⟩ | ⟨made, rfl | hmade, hens⟩
    · exact .inl rfl
    · exact hlast (r :: rs) hens
    · rcases hens.entry? l with heq | ⟨hnone, p, hp, hf⟩
      · rw [heq]
        refine (ih hmade).imp_right fun hnew => ?_
        obtain ⟨hnone, p, hp, hf⟩ := hens.grows.isNewDir hnew
        exact ⟨hnone, p, List.mem_cons_of_mem _ hp, hf⟩
      · have hbefore : fs.entry? l = none := by
          rcases ih hmade with heq | ⟨hnone, _⟩
          · rw [← heq, hnone]
          · exact hnone
        rw [List.mem_singleton.mp hp] at hf
        exact .inr ⟨hbefore, q, List.mem_cons_self, hf⟩

theorem eq_of_makeDirsFrom_isDir (hd : fs.isDir q) (h : makeDirsFrom q qs fs = .ok u fs') :
    fs' = fs := by
  have hsame : makeDirsFrom q qs fs = .ok () fs := by
    cases qs <;> exact makeDirAfter_of_isDir hd
  rw [hsame] at h
  cases h
  rfl

theorem not_lost_of_isDir (hup : Step.up ∉ p.steps) (hnames : namesOf p.steps ≠ [])
    (hd : fs.isDir p) : p.isAbsolute = true ∨ fs.lostLevels = 0 := by
  obtain ⟨l?, hf⟩ := find_of_isDir hd
  obtain ⟨l, rfl, _⟩ := location_of_find (by decide) hnames hf
  obtain ⟨_, ⟨k, start, rest, ho, _⟩, _⟩ := find_follow_iff.mp hf
  exact not_lost_of_originOf hup (by rw [ho]; exact Option.some_ne_none _)

theorem Planted.not_isDir {ms pre post : List Name} {n : Name} {k : Nat} {v : Location}
    (hup : Step.up ∉ p.steps) (hnames : namesOf p.steps = ms ++ [n])
    (hplanted : Planted fs (fs.startOf p.isAbsolute) ms pre post k v) (hpost : post ≠ []) :
    ¬ (fs.plant v post).isDir p := by
  intro hd
  have hne : namesOf p.steps ≠ [] := by
    rw [hnames]
    simp
  obtain ⟨l?, hf⟩ := find_of_isDir hd
  obtain ⟨l, rfl, _⟩ := location_of_find (by decide) hne hf
  obtain ⟨_, ⟨k', start, rest, ho, hl⟩, _⟩ := find_follow_iff.mp hf
  rw [originOf_eq_start _ _ _ (not_lost_of_isDir hup hne hd), startOf,
    (sameStart_plant fs v post).1] at ho
  cases ho
  have hleads := leads_namesOf p.steps hup hl
  rw [hnames, List.map_append] at hleads
  obtain ⟨_, w, hbefore, hname⟩ := hleads.split
  obtain ⟨_, rfl⟩ := hplanted.leads_plant.unique hbefore
  exact hname.entry?_name_ne_none (entry?_plant_below hplanted.plantable hpost _
    (List.prefix_append _ _) (by simp))

theorem eq_of_makeDirsFrom_parents (hup : Step.up ∉ p.steps) (hps : p.parents = q :: qs)
    (h : makeDirsFrom q qs fs = .ok u fs') (hd : fs'.isDir p) : fs' = fs := by
  obtain ⟨lead, hlead, hcomp⟩ := Path.components_of_up_notMem p (p.up_notMem_steps_iff.mp hup)
  rw [Path.parents, hcomp] at hps
  rcases List.eq_nil_or_concat (namesOf p.moves) with hnil | ⟨ms, n, hnames⟩
  · rw [hnil, List.map_nil, List.append_nil] at hps
    rcases hlead with rfl | rfl
    · cases hps
    · obtain ⟨rfl, rfl⟩ := List.cons.inj hps
      exact eq_of_makeDirsFrom_lead (.inl rfl) (Path.steps_ofComponents _ _ (by simp)) h
  rw [List.concat_eq_append] at hnames
  rw [hnames, List.map_append, ← List.append_assoc, List.reverse_append, List.map_singleton,
    List.reverse_singleton, List.singleton_append, Path.shorter, List.reverse_reverse] at hps
  obtain ⟨rfl, rfl⟩ := List.cons.inj hps
  have hms : ∀ m ∈ ms, IsEntryName m := by
    intro m hm
    have hmem : m ∈ namesOf p.moves := by
      rw [hnames]
      exact List.mem_append_left _ hm
    exact isEntryName_of_mem_moves hmem
  rw [← Path.namesOf_steps] at hnames
  have hlost := not_lost_of_isDir hup (by rw [hnames]; simp) hd
  rw [(sameStart_makeDirsFrom _ h).2] at hlost
  obtain ⟨pre, post, k, v, hplanted, rfl, _⟩ := makeDirsFrom_spec p.isAbsolute lead hlead ms hms hlost
    (spells_ofComponents _ hlead hms) h
  by_cases hpost : post = []
  · rw [hpost]
    rfl
  · exact absurd hd (hplanted.not_isDir hup hnames hpost)

/-- A directory that was not there is made empty, if its path does not go up or its parent is there. -/
theorem isEmptyDir_of_makeDirs (hp : p.bytes ≠ []) (hmissing : ¬ fs.isDir p)
    (hway : Step.up ∉ p.steps ∨ ∃ q, p.parents.head? = some q ∧ fs.isDir q)
    (h : makeDirs p fs = .ok u fs') : ∃ l, IsEmptyDir fs' p l := by
  obtain ⟨made, hmake | ⟨hd, _⟩, hmade⟩ := makeDirs_ok hp h
  · exact isEmptyDir_of_makeDir hmake
  · -- A directory that is found is no new one, so that the parents were there, and it was, too.
    exfalso
    have hsame : made = fs := by
      rcases hmade with rfl | ⟨q, qs, hps, hmade⟩
      · rfl
      · rcases hway with hup | ⟨q', hq', hdir⟩
        · exact eq_of_makeDirsFrom_parents hup hps hmade hd
        · rw [hps, List.head?_cons, Option.some.injEq] at hq'
          exact eq_of_makeDirsFrom_isDir (hq' ▸ hdir) hmade
    exact hmissing (hsame ▸ hd)

end MakeDirs

/-- Whether the parent directory of a path is there, and stays there if the path is discarded: the way
to it does not go through what stands at the path. -/
def ParentStays (fs : FileSystem) (p : Path) : Prop :=
  ∃ q v, p.parents.head? = some q ∧ fs.find .follow q = .ok (some v, .dir) ∧
    ∀ l e, fs.find .inspect p = .ok (some l, e) → ∀ u ∈ fs.trail q, ¬ l <+: u

/-- What making a directory anew leaves. -/
structure MadeAnew (fs fs' : FileSystem) (p : Path) : Prop where
  isDir : fs'.isDir p
  empty : Step.up ∉ p.steps ∨ fs.ParentStays p → ∃ l, IsEmptyDir fs' p l
  /-- Outside what stood at the path, only directories are new to which the path or a parent leads. -/
  outside : ∀ u, fs'.entry? u = fs.entry? u ∨
    (∃ l e, fs.find .inspect p = .ok (some l, e) ∧ l <+: u) ∨ IsNewDir fs fs' (p :: p.parents) u
  /-- A file or a link gives way, and nothing else does. -/
  replaced : ∀ l e, fs.find .inspect p = .ok (some l, e) → e ≠ .dir →
    (fs'.entry? l = none ∨ fs'.entry? l = some .dir) ∧
      ∀ u, u ≠ l → fs.entry? u ≠ none → fs'.entry? u = fs.entry? u

section Reset

variable {fs fs' made : FileSystem} {p : Path} {l : Location} {e : DirEntry} {u : Unit}

theorem ParentStays.exists_isDir (h : fs.ParentStays p) (hd : Vacated fs made p l e) :
    ∃ q, p.parents.head? = some q ∧ made.isDir q := by
  obtain ⟨q, v, hq, hf, havoid⟩ := h
  refine ⟨q, hq, ?_⟩
  rw [isDir, stat_of_find (hd.swept.spares.find (havoid l e hd.find) hf)]

theorem Vacated.not_isDir (hd : Vacated fs made p l e)
    (hway : Step.up ∉ p.steps ∨ fs.ParentStays p) : ¬ made.isDir p := by
  rcases hd.gone with hgone | ⟨hup, ha, rfl⟩
  · exact hgone
  · exfalso
    rcases hway with hnone | ⟨q, v, hq, _, havoid⟩
    · exact hnone hup
    · obtain ⟨qs, hps⟩ := List.head?_eq_some_iff.mp hq
      have hrelative : q.isAbsolute = false := by rw [Path.isAbsolute_of_parents hps, ha]
      exact havoid _ e hd.find _ (workingDir_mem_trail hrelative) List.prefix_rfl

private theorem madeAnew_of_vacated (hp : p.bytes ≠ []) (hd : Vacated fs made p l e)
    (h : makeDirs p made = .ok u fs') : MadeAnew fs fs' p := by
  have hgrows : Grows made fs' := by
    have hstate := grows_makeDirs p made
    rwa [h] at hstate
  refine ⟨isDir_of_makeDirs hp h, fun hway => ?_, fun w => ?_, fun l' e' hf hne => ?_⟩
  · exact isEmptyDir_of_makeDirs hp (hd.not_isDir hway)
      (hway.imp_right fun hparent => hparent.exists_isDir hd) h
  · by_cases hw : l <+: w
    · exact .inr (.inl ⟨l, e, hd.find, hw⟩)
    · rcases entry?_of_makeDirsFrom h w with heq | ⟨hnone, hnew⟩
      · exact .inl (heq.trans (hd.swept.apart w hw))
      · exact .inr (.inr ⟨by rw [← hd.swept.apart w hw, hnone], hnew⟩)
  · obtain ⟨rfl, rfl⟩ : l = l' ∧ e = e' := by
      have hsame := hd.find.symm.trans hf
      cases hsame
      exact ⟨rfl, rfl⟩
    refine ⟨?_, fun w hw hwe => ?_⟩
    · rcases hgrows.entry? l with heq | ⟨_, hdir⟩
      · rw [heq]
        exact hd.swept.self
      · exact .inr hdir
    · have hapart : ¬ l <+: w := by
        intro hlw
        refine hwe (entry?_below_of_not_dir fs l w ?_ hlw hw)
        rw [isDirAt, (locate_of_find_some hf).2, decide_eq_false_iff_not]
        exact fun hdir => hne (Option.some.inj hdir)
      have heq := hd.swept.apart w hapart
      rw [hgrows.eq_of_ne_none (by rwa [heq]), heq]

private theorem madeAnew_of_missing (hp : p.bytes ≠ [])
    (hi : fs.inspect p = .error (.system .noEntry)) (h : makeDirs p fs = .ok u fs') :
    MadeAnew fs fs' p := by
  have hmissing : ∃ e, fs.find .inspect p = .error e := by
    cases hf : fs.find .inspect p with
    | error e => exact ⟨e, rfl⟩
    | ok found =>
      rw [inspect, hf] at hi
      cases hi
  obtain ⟨e, hf⟩ := hmissing
  refine ⟨isDir_of_makeDirs hp h, fun hway => ?_, fun w => ?_, fun l' e' hf' => ?_⟩
  · refine isEmptyDir_of_makeDirs hp (not_isDir_of_find_error (.inl rfl) hf) ?_ h
    rcases hway with hup | ⟨q, v, hq, hdir, _⟩
    · exact .inl hup
    · exact .inr ⟨q, hq, by rw [isDir, stat_of_find hdir]⟩
  · exact (entry?_of_makeDirsFrom h w).imp_right .inr
  · rw [hf] at hf'
    cases hf'

theorem madeAnew_of_resetDir (hp : p.bytes ≠ []) (h : resetDir p fs = .ok u fs') :
    MadeAnew fs fs' p := by
  rw [resetDir] at h
  split at h
  · obtain ⟨_, made, hdiscard, hmake⟩ := Action.bind_ok_iff.mp h
    obtain ⟨l, e, hd⟩ := vacated_of_discard hdiscard
    exact madeAnew_of_vacated hp hd hmake
  · rename_i hi
    exact madeAnew_of_missing hp hi h
  · cases h

end Reset

end FileSystem

namespace Action

open FileSystem LaunchDist.Path

/-- A directory that has been made anew is an empty one of its own, if the path does not go up or its
parent directory was there. Nothing that a link led to is touched, and nothing outside the place changes
but for parents that were missing. -/
theorem resetDir_makes_anew {p : Path} {w w' : Workspace} {u : Unit} (hp : p.bytes ≠ [])
    (h : Action.resetDir p w = .ok u w') :
    MadeAnew w.files w'.files p ∧ w'.log = w.log := by
  obtain ⟨files, hreset, rfl⟩ := changeAt_ok_iff.mp h
  exact ⟨madeAnew_of_resetDir hp hreset, rfl⟩

/-- A directory that holds a file, and a link to it. -/
def squattedFiles : FileSystem where
  children := [
    (Utf8.encode "d", .dir [(Utf8.encode "x", .file 0o640 (Utf8.encode "written"))]),
    (Utf8.encode "s", .link (Path.ofString "d"))]
  workingDir := []

/-- A link gives way to an empty directory, and what it led to is spared. -/
theorem resetDir_makes_anew_squattedFiles :
    (Path.ofString "d/../s").bytes ≠ [] ∧
      ∃ w', Action.resetDir (Path.ofString "d/../s") ⟨squattedFiles, []⟩ = .ok () w' ∧
        (∃ l, IsEmptyDir w'.files (Path.ofString "d/../s") l) ∧
        w'.files.entry? [Utf8.encode "d", Utf8.encode "x"] =
          some (.file 0o640 (Utf8.encode "written")) := by
  have hp : (Path.ofString "d/../s").bytes ≠ [] := by decide +kernel
  obtain ⟨_, w', h⟩ := exists_of_succeeds
    (r := Action.resetDir (Path.ofString "d/../s") ⟨squattedFiles, []⟩) (by decide +kernel)
  have hfind : squattedFiles.find .inspect (Path.ofString "d/../s") =
      .ok (some [Utf8.encode "s"], .link (Path.ofString "d")) := by decide +kernel
  have hparent : squattedFiles.ParentStays (Path.ofString "d/../s") := by
    refine ⟨Path.ofString "d/..", [], by decide +kernel, by decide +kernel, fun l e hf => ?_⟩
    rw [hfind] at hf
    cases hf
    decide +kernel
  obtain ⟨hanew, _⟩ := resetDir_makes_anew hp h
  refine ⟨hp, w', h, hanew.empty (.inr hparent), ?_⟩
  rw [(hanew.replaced _ _ hfind (by decide)).2 _ (by decide) (by decide +kernel)]
  decide +kernel

/-- Where a path goes up from a directory that is missing, what it leads to is not seen until that
directory is made, and is taken for the new one. -/
theorem resetDir_up_keeps_content :
    ∃ w', Action.resetDir (Path.ofString "a/../d") ⟨squattedFiles, []⟩ = .ok () w' ∧
      w'.files.list (Path.ofString "a/../d") = .ok [Utf8.encode "x"] := by
  have hends : endsIn (fun w' => w'.files.list (Path.ofString "a/../d") = .ok [Utf8.encode "x"])
      (Action.resetDir (Path.ofString "a/../d") ⟨squattedFiles, []⟩) = true := by
    decide +kernel
  obtain ⟨_, w', h, htest⟩ := exists_of_endsIn hends
  exact ⟨w', h, of_decide_eq_true htest⟩

end Action

end LaunchDist
