import LaunchDist.Proofs.FileSystem.Confined
import LaunchDist.Proofs.FileSystem.Linkless
/-!
# Directories that cannot be made

What keeps an entry from being looked up lies before its name. So where the way to an entry is
obstructed, all entries of that directory fail alike, whether they are to be made or to be made anew, and
they fail in the same way once again in the state that is left.
-/
namespace LaunchDist

namespace FileSystem

open LaunchDist.Path (Step namesOf IsEntryName)

/-- Two names of entries between which no look-up of the way to them can tell. -/
structure Alike (s t : String) : Prop where
  left : IsEntryName (Utf8.encode s)
  right : IsEntryName (Utf8.encode t)
  length_eq : (Utf8.encode s).length = (Utf8.encode t).length
  zero_mem_iff : 0 ∈ Utf8.encode s ↔ 0 ∈ Utf8.encode t

section Lookup

variable {fs : FileSystem} {purpose purpose' : Purpose} {k : Nat} {l : Location} {n n' : Name}
  {xs : List Step} {e : Errno}

/-- Why a last name is not found does not depend on it, but for its length. -/
theorem lookupSteps_lastName_error (hp : purpose = .inspect ∨ purpose = .directory)
    (hp' : purpose' = .inspect ∨ purpose' = .directory) (hlen : n.length = n'.length)
    (h : fs.lookupSteps purpose k l (xs ++ [.name n]) = .error e) :
    fs.lookupSteps purpose' k l (xs ++ [.name n']) = .error e := by
  have hcan : purpose ≠ .canonical := by rcases hp with rfl | rfl <;> decide
  have hcan' : purpose' ≠ .canonical := by rcases hp' with rfl | rfl <;> decide
  induction k, l, xs using stepsInduction with
  | nil k l =>
    rw [List.nil_append] at h ⊢
    by_cases hd : fs.isDirAt l
    · by_cases hn : maxNameLength < n.length
      · rw [lookupSteps_name _ _ _ _ _ _ hcan, if_pos hd, if_neg (by simp), if_pos hn] at h
        rw [lookupSteps_name _ _ _ _ _ _ hcan', if_pos hd, if_neg (by simp), if_pos (by rwa [← hlen])]
        exact h
      · rw [(lookupSteps_lastName hp).mpr ⟨hd, Nat.le_of_not_lt hn, rfl⟩] at h
        cases h
    · rw [lookupSteps_name _ _ _ _ _ _ hcan, if_neg hd] at h
      rw [lookupSteps_name _ _ _ _ _ _ hcan', if_neg hd]
      exact h
  | cons k l s xs ihr ihj =>
    rw [List.cons_append] at h ⊢
    by_cases hd : fs.isDirAt l
    · cases s with
      | here =>
        rw [lookupSteps_stay _ _ _ _ _ _ (.inl rfl), if_pos hd] at h ⊢
        exact ihr l h
      | slash =>
        rw [lookupSteps_stay _ _ _ _ _ _ (.inr rfl), if_pos hd] at h ⊢
        exact ihr l h
      | up =>
        rw [lookupSteps_up, if_pos hd] at h ⊢
        exact ihr _ h
      | name m =>
        rw [lookupSteps_name _ _ _ _ _ _ hcan, if_pos hd, if_neg fun h => ne_slash_before _ _ _ h.2] at h
        rw [lookupSteps_name _ _ _ _ _ _ hcan', if_pos hd, if_neg fun h => ne_slash_before _ _ _ h.2]
        by_cases hm : maxNameLength < m.length
        · rwa [if_pos hm] at h ⊢
        · rw [if_neg hm] at h ⊢
          by_cases he : fs.entry? (l ++ [m]) = none
          · rw [lookupName, he] at h ⊢
            simp only [isLast_before] at h ⊢
            exact h
          · cases hl : fs.linkAt? (l ++ [m]) with
            | none =>
              rw [lookupName_enter _ _ _ _ _ _ he hl (by simp [isLast_before])] at h ⊢
              exact ihr _ h
            | some target =>
              rw [lookupName_link _ _ _ _ _ _ _ hl (keepsLink_before _ _ _), ← List.append_assoc] at h ⊢
              cases k with
              | zero => exact h
              | succ k => exact ihj k _ _ rfl h
    · cases s with
      | here => rwa [lookupSteps_stay _ _ _ _ _ _ (.inl rfl), if_neg hd] at h ⊢
      | slash => rwa [lookupSteps_stay _ _ _ _ _ _ (.inr rfl), if_neg hd] at h ⊢
      | up => rwa [lookupSteps_up, if_neg hd] at h ⊢
      | name m =>
        rw [lookupSteps_name _ _ _ _ _ _ hcan, if_neg hd] at h
        rwa [lookupSteps_name _ _ _ _ _ _ hcan', if_neg hd]

theorem lookupRelative_lastName_error (hp : purpose = .inspect ∨ purpose = .directory)
    (hp' : purpose' = .inspect ∨ purpose' = .directory) (hlen : n.length = n'.length) {levels : Nat}
    (h : fs.lookupRelative purpose levels (xs ++ [.name n]) = .error e) :
    fs.lookupRelative purpose' levels (xs ++ [.name n']) = .error e := by
  induction xs generalizing levels with
  | nil =>
    cases levels with
    | zero => exact lookupSteps_lastName_error hp hp' hlen h
    | succ levels =>
      rw [List.nil_append, lookupRelative, if_neg (by simp)] at h ⊢
      exact h
  | cons s xs ih =>
    cases levels with
    | zero => exact lookupSteps_lastName_error hp hp' hlen h
    | succ levels =>
      cases s with
      | here => exact ih h
      | slash => exact ih h
      | up => exact ih h
      | name m =>
        rw [List.cons_append, lookupRelative, if_neg fun h => ne_slash_before _ _ _ h.2] at h ⊢
        exact h

end Lookup

namespace Alike

variable {s t : String} {p : Path} {fs : FileSystem} (h : Alike s t)

include h

theorem isTooLong_eq : isTooLong (p / s) = isTooLong (p / t) := by
  rw [isTooLong, isTooLong]
  rw [show (p / s).bytes.length = (p / t).bytes.length from
    Path.length_join_congr p h.left.isAbsolute h.right.isAbsolute h.length_eq]

theorem contains_zero_eq : (p / s).bytes.contains 0 = (p / t).bytes.contains 0 := by
  have hs := Path.zero_mem_join p (Path.ofString s) h.left.isAbsolute
  have ht := Path.zero_mem_join p (Path.ofString t) h.right.isAbsolute
  rw [Bool.eq_iff_iff, List.contains_iff_mem, List.contains_iff_mem]
  exact hs.trans ((or_congr_right h.zero_mem_iff).trans ht.symm)

theorem nameable (hn : Nameable (p / s)) : Nameable (p / t) where
  isTooLong := by
    rw [← h.isTooLong_eq]
    exact hn.isTooLong
  zero_notMem := by
    have hzero := hn.zero_notMem
    rwa [← List.contains_iff_mem, h.contains_zero_eq, List.contains_iff_mem] at hzero
  ne_nil := Path.bytes_ne_nil_of_steps (Path.steps_entry p t h.right)

theorem locate_error {purpose purpose' : Purpose} (hp : purpose = .inspect ∨ purpose = .directory)
    (hp' : purpose' = .inspect ∨ purpose' = .directory) {e : FileFailure}
    (hloc : fs.locate purpose (p / s) = .error e) : fs.locate purpose' (p / t) = .error e := by
  have hmap : ∀ {x y : Except Errno Spot}, (∀ e, x = .error e → y = .error e) →
      x.mapError FileFailure.system = .error e → y.mapError FileFailure.system = .error e := by
    intro x y hxy hx
    cases x with
    | ok spot => cases hx
    | error e' =>
      rw [hxy e' rfl]
      exact hx
  by_cases hn : Nameable (p / s)
  · have hcan : purpose ≠ .canonical := by rcases hp with rfl | rfl <;> decide
    have hcan' : purpose' ≠ .canonical := by rcases hp' with rfl | rfl <;> decide
    rw [locate_eq hn, Path.isAbsolute_entry p s h.left, Path.steps_entry p s h.left,
      if_neg (c := purpose = .canonical ∧ _) fun hc => hcan hc.1] at hloc
    rw [locate_eq (h.nameable hn), Path.isAbsolute_entry p t h.right, Path.steps_entry p t h.right,
      if_neg (c := purpose' = .canonical ∧ _) fun hc => hcan' hc.1]
    by_cases ha : p.isAbsolute
    · rw [if_pos ha] at hloc ⊢
      exact hmap (fun e' => lookupSteps_lastName_error hp hp' h.length_eq) hloc
    · rw [if_neg ha] at hloc ⊢
      exact hmap (fun e' => lookupRelative_lastName_error hp hp' h.length_eq) hloc
  · rw [locate, h.isTooLong_eq, h.contains_zero_eq] at hloc
    rw [locate]
    by_cases hlong : isTooLong (p / t) ∧ ¬ (p / t).bytes.contains 0
    · rwa [if_pos hlong] at hloc ⊢
    · rw [if_neg hlong, resolve] at hloc ⊢
      by_cases hzero : (p / t).bytes.contains 0
      · rw [h.contains_zero_eq, if_pos hzero] at hloc
        rw [if_pos hzero]
        exact hloc
      · exfalso
        refine hn ⟨?_, ?_, Path.bytes_ne_nil_of_steps (Path.steps_entry p s h.left)⟩
        · rw [h.isTooLong_eq, ← Bool.not_eq_true]
          exact fun hl => hlong ⟨hl, hzero⟩
        · rwa [← List.contains_iff_mem, h.contains_zero_eq]

end Alike

section Stuck

variable {fs fs' : FileSystem} {p : Path} {s t : String} {e : FileFailure}

private theorem not_isDir_of_locate_error (h : fs.locate .directory p = .error e) : ¬ fs.isDir p :=
  not_isDir_of_find_error (.inr rfl) (by rw [find, h])

theorem makeDirs_of_locate_error (hs : IsEntryName (Utf8.encode s)) (he : e ≠ .system .noEntry)
    (h : fs.locate .directory (p / s) = .error e) : makeDirs (p / s) fs = .error e fs := by
  rw [makeDirs, Path.parents_entry p s hs]
  refine makeDirAfter_error_iff.mpr ⟨Path.bytes_ne_nil_of_steps (Path.steps_entry p s hs), .inl ?_⟩
  exact ⟨rfl, he, by rw [makeDir, h], not_isDir_of_locate_error h⟩

theorem resetDir_of_locate_error (he : e ≠ .system .noEntry)
    (h : fs.locate .inspect p = .error e) : resetDir p fs = .error e fs := by
  have hinspect : fs.inspect p = .error e := by
    rw [inspect, find, h]
    rfl
  rw [resetDir]
  split
  · rename_i hok
    rw [hinspect] at hok
    cases hok
  · rename_i hmissing
    rw [hinspect] at hmissing
    exact absurd (Except.error.inj hmissing) he
  · rename_i hfail
    rw [hinspect] at hfail
    rw [Except.error.inj hfail]

theorem resetDir_of_missing (h : fs.locate .inspect p = .error (.system .noEntry)) :
    resetDir p fs = makeDirs p fs := by
  have hinspect : fs.inspect p = .error (.system .noEntry) := by
    rw [inspect, find, h]
    rfl
  rw [resetDir, hinspect]
  rfl

theorem makeDirs_stopped (hs : IsEntryName (Utf8.encode s)) (hup : Step.up ∉ p.moves)
    (h : makeDirs (p / s) fs = .error e fs') :
    fs' = fs ∨ e = .system .nameTooLong ∧ fs'.locate .directory (p / s) = .error e := by
  rcases makeDirs_state fs hs hup with hstate | ⟨_, _, hchain, _⟩
  · left
    rwa [h] at hstate
  · obtain ⟨lead, hlead, hns, hspells, heq⟩ := exists_spells_entry hs hup
    rw [heq] at h
    obtain ⟨ms, rest, pre, post, k, v, hnames, hp, rfl, hlong⟩ :=
      planted_of_error p.isAbsolute hlead hns hchain.not_lost hspells h
    rw [makeDirsFrom_concat] at h
    obtain ⟨hb, ⟨hsame, _⟩ | ⟨hmissing, _⟩⟩ := makeDirAfter_error_iff.mp h
    · exact .inl hsame
    · by_cases hpost : post = []
      · left
        rw [hpost]
        rfl
      · right
        obtain ⟨rfl, n, hn, hlen⟩ := hlong hpost
        obtain ⟨rest, rfl⟩ := List.head?_eq_some_iff.mp hn
        have habs := Path.isAbsolute_entry p s hs
        have hsteps : namesOf (p / s).steps = ms ++ n :: rest := by
          rw [Path.namesOf_steps, Path.moves_entry p s hs, Path.namesOf_append]
          exact hnames
        have hup' : Step.up ∉ (p / s).steps := by
          rwa [Path.up_notMem_steps_iff, Path.up_notMem_moves_entry p s hs]
        obtain ⟨xs, ys, hxs, rfl⟩ := Path.exists_of_namesOf hsteps
        rw [← habs] at hp
        refine ⟨rfl, hp.locate_tooLong hxs ?_ (nameable_of_noEntry hb
          (locate_of_makeDir_noEntry hmissing)) ?_ (hp.plantable.isDirAt hpost) hlen⟩
        · intro hm
          exact hup' (hxs ▸ List.mem_append_left _ hm)
        · rw [habs]
          exact hchain.not_lost

end Stuck

section Obstructed

variable {fs : FileSystem} {p : Path} {s t : String} {e : FileFailure}

theorem Grows.linkless {fs' : FileSystem} (h : Grows fs fs') (hlinks : Linkless fs) : Linkless fs' := by
  intro u
  rw [h.linkAt?, hlinks]

/-- Whether the directory of an entry is there, or can be made. -/
def Passes (fs : FileSystem) (p : Path) (s : String) : Prop :=
  Straight fs (p / s) ∧ (Edit.dirs (fs.down p)).Fits fs.entry?

theorem Linkless.passes_of_locate (hlinks : Linkless fs) (hs : IsEntryName (Utf8.encode s))
    (hup : Step.up ∉ p.moves) {spot : Spot} (h : fs.locate .directory (p / s) = .ok spot) :
    Passes fs p s := by
  obtain ⟨hp, hd, _⟩ := (hlinks.locate_entry_iff (by decide) hs hup).mp h
  exact ⟨hp, fits_dirs_of_isDirAt hd⟩

theorem Passes.up_notMem (h : Passes fs p s) (hs : IsEntryName (Utf8.encode s)) :
    Step.up ∉ p.moves :=
  ((straight_entry_iff hs).mp h.1).2.2.1

theorem Passes.alike (h : Passes fs p s) (hst : Alike s t) : Passes fs p t := by
  obtain ⟨hn, hlen, hrest⟩ := (straight_entry_iff hst.left).mp h.1
  refine ⟨(straight_entry_iff hst.right).mpr ⟨hst.nameable hn, ?_, hrest⟩, h.2⟩
  rwa [← hst.length_eq]

theorem Passes.edited {fs' : FileSystem} {edits : List Edit} (h : Passes fs p s)
    (hs : IsEntryName (Utf8.encode s)) (ht : IsEntryName (Utf8.encode t))
    (hedited : EditedBy edits fs fs') (hstart : p.isAbsolute = true ∨ SameStart fs fs')
    (hbelow : ∀ edit ∈ edits, fs.down (p / t) <+: edit.site) : Passes fs' p s := by
  have hstart' : (p / s).isAbsolute = true ∨ SameStart fs fs' := by
    rwa [Path.isAbsolute_entry p s hs]
  refine ⟨hedited.straight h.1 hstart', fun u hu => ?_⟩
  rw [down_congr hstart] at hu
  rw [hedited.entry?]
  refine Edit.applyAll_open (h.2 u hu) fun e hput => ?_
  have hlen := ((hbelow _ hput).trans hu).length_le
  rw [down_entry ht, List.length_append, List.length_singleton] at hlen
  omega

theorem Grows.passes {fs' : FileSystem} (h : Grows fs fs') (hs : IsEntryName (Utf8.encode s))
    (hp : Straight fs' (p / s)) (hne : fs'.entry? (fs'.down (p / s)) ≠ none)
    (hdir : fs'.entry? (fs'.down (p / s)) ≠ some .dir) : Passes fs p s := by
  have hdown : fs'.down (p / s) = fs.down (p / s) := down_congr (.inr h.sameStart)
  rw [hdown] at hne hdir
  have hkept := h.entry? (fs.down (p / s))
  have heq := hkept.resolve_right fun hc => hdir hc.2
  rw [heq] at hne
  have hd : fs.isDirAt (fs.down p) := isDirAt_down hs hne
  refine ⟨hp.congr (.inr h.sameStart.symm) fun ha => ?_, fits_dirs_of_isDirAt hd⟩
  rw [Path.isAbsolute_entry p s hs] at ha
  rw [down, startOf, ha] at hd
  rw [h.sameStart.1]
  exact isDirAt_of_prefix fs _ _ hd (List.prefix_append _ _)

/-- If an entry cannot be made for what lies before it, another one of its directory cannot be made anew,
and as much has been made of the way. -/
theorem Linkless.resetDir_error (hlinks : Linkless fs) (h : Alike s t) (hup : Step.up ∉ p.moves)
    (hno : ¬ Passes fs p s) {made : FileSystem} (hmake : makeDirs (p / s) fs = .error e made) :
    resetDir (p / t) fs = .error e made := by
  cases hloc : fs.locate .directory (p / s) with
  | ok spot => exact absurd (hlinks.passes_of_locate h.left hup hloc) hno
  | error e' =>
    have hinspect := h.locate_error (.inr rfl) (.inl rfl) hloc
    by_cases he : e' = .system .noEntry
    · subst he
      have hgrows : Grows fs made := by
        have hstate := grows_makeDirs (p / s) fs
        rwa [hmake] at hstate
      have hmissing : fs.makeDir (p / t) = .error (.system .noEntry) := by
        rw [makeDir, h.locate_error (.inr rfl) (.inr rfl) hloc]
      rw [resetDir_of_missing hinspect, makeDirs, Path.parents_entry p t h.right]
      rw [makeDirs, Path.parents_entry p s h.left] at hmake
      refine makeDirAfter_error_iff.mpr
        ⟨Path.bytes_ne_nil_of_steps (Path.steps_entry p t h.right), .inr ⟨hmissing, ?_⟩⟩
      obtain ⟨_, ⟨_, hne, hfail, _⟩ | ⟨_, hparent | ⟨hparent, hfail, hdir⟩⟩⟩ :=
        makeDirAfter_error_iff.mp hmake
      · rw [makeDir, hloc] at hfail
        exact absurd (Except.error.inj hfail).symm hne
      · exact .inl hparent
      · cases hlast : made.locate .directory (p / s) with
        | error e' =>
          have hlast' := h.locate_error (.inr rfl) (.inr rfl) hlast
          rw [makeDir, hlast] at hfail
          rw [← Except.error.inj hfail]
          exact .inr ⟨hparent, by rw [makeDir, hlast'], not_isDir_of_locate_error hlast'⟩
        | ok spot =>
          -- Something is in the way that is no directory, and it has been there before.
          have hlinks' := hgrows.linkless hlinks
          obtain ⟨hp, _, hspot⟩ := (hlinks'.locate_entry_iff (by decide) h.left hup).mp hlast
          refine absurd (hgrows.passes h.left hp (fun hn => ?_) fun he => ?_) hno
          · rw [if_pos hn] at hspot
            rw [makeDir, hlast, hspot] at hfail
            cases hfail
          · apply hdir
            rw [isDir, stat_of_find ((hlinks'.find_entry_iff (by decide) h.left hup).mpr ⟨hp, rfl, he⟩)]
    · have hstuck := makeDirs_of_locate_error h.left he hloc
      rw [hstuck] at hmake
      cases hmake
      exact resetDir_of_locate_error he hinspect

/-- Where the way is obstructed, two entries of a directory fail alike, and nothing comes of it if either
is tried again. -/
theorem Linkless.obstructed (hlinks : Linkless fs) (h : Alike s t) (hup : Step.up ∉ p.moves)
    (hno : ¬ Passes fs p s) :
    ∃ e made, (makeDirs (p / s) fs = .error e made ∧ resetDir (p / t) fs = .error e made) ∧
      makeDirs (p / s) made = .error e made ∧ resetDir (p / t) made = .error e made := by
  cases hmake : makeDirs (p / s) fs with
  | ok u made =>
    obtain ⟨hp, hmade⟩ := hlinks.makeDirs_ok h.left hup hmake
    refine absurd ⟨hp, fun u hu => ?_⟩ hno
    exact hmade.fits.1 u (hu.trans (prefix_down_entry h.left))
  | error e made =>
    have hreset := hlinks.resetDir_error h hup hno hmake
    refine ⟨e, made, ⟨rfl, hreset⟩, ?_⟩
    rcases makeDirs_stopped h.left hup hmake with rfl | ⟨rfl, hstopped⟩
    · exact ⟨hmake, hreset⟩
    · have hinspect := h.locate_error (.inr rfl) (.inl rfl) hstopped
      exact ⟨makeDirs_of_locate_error h.left (by decide) hstopped,
        resetDir_of_locate_error (by decide) hinspect⟩

end Obstructed

end FileSystem

end LaunchDist
