import LaunchDist.Proofs.FileSystem.Reset
import LaunchDist.Proofs.FileSystem.Withdrawal
/-!
# Making directories anew at any path

A path that goes up may lead elsewhere once its last entry has been emptied, so that another directory
is removed in the end. As long as it does not, whatever comes of making a directory anew, nothing
changes but at the entry and below it, and for directories that were missing.
-/
namespace LaunchDist

namespace FileSystem

open LaunchDist.Path (Step namesOf IsEntryName)

/-- What becomes of a node that is to be discarded, with whatever that ends: outside it all is as before,
and at its place and below there is nothing, or an empty directory. -/
structure Swept (fs fs' : FileSystem) (l : Location) : Prop where
  apart : ∀ u, ¬ l <+: u → fs'.entry? u = fs.entry? u
  below : ∀ u, l <+: u → u ≠ l → fs'.entry? u = none
  self : fs'.entry? l = none ∨ fs'.entry? l = some .dir
  withdrawn : Withdrawn fs fs'
  start : SameStart fs fs' ∨ l <+: fs.workingDir

section Discard

variable {fs : FileSystem} {root : Path} {s : String} {k : Nat} {l v : Location}

theorem swept_clear (hd : fs.isDirAt l) : Swept fs (fs.clear l) l where
  apart u hu := by rw [entry?_clear fs l u hd, if_neg fun h => hu h.1]
  below u hu hne := by rw [entry?_clear fs l u hd, if_pos ⟨hu, hne⟩]
  self := .inr (by rw [entry?_clear fs l l hd, if_neg fun h => h.2 rfl, ← isDirAt_iff, hd])
  withdrawn := withdrawn_clear fs l
  start := (startKept_clear fs l).imp_right And.left

theorem swept_remove (hl : l ≠ []) : Swept fs (fs.remove l) l where
  apart u hu := by rw [entry?_remove fs l u hl, if_neg hu]
  below u hu _ := by rw [entry?_remove fs l u hl, if_pos hu]
  self := .inl (by rw [entry?_remove fs l l hl, if_pos (List.prefix_refl _)])
  withdrawn := withdrawn_remove fs l
  start := (startKept_remove fs l hl).imp_right And.left

theorem swept_clear_remove (hl : l ≠ []) (hd : fs.isDirAt l) :
    Swept fs ((fs.clear l).remove l) l where
  apart u hu := by rw [(swept_remove hl).apart u hu, (swept_clear hd).apart u hu]
  below u hu hne := (swept_remove hl).below u hu hne
  self := (swept_remove hl).self
  withdrawn := (withdrawn_clear fs l).trans (withdrawn_remove _ l)
  start := (startKept_clear_remove fs l hl).imp_right And.left

/-- Whether a root leads to the same directory once one of its entries has been emptied. -/
def LeadsBack (fs : FileSystem) (root : Path) (n : Name) : Prop :=
  ∀ k v, Reaches fs root k v → fs.isDirAt (v ++ [n]) →
    ∀ k' v', Reaches (fs.clear (v ++ [n])) root k' v' → v' = v

private theorem removeTree_swept (hs : IsEntryName (Utf8.encode s))
    (hback : LeadsBack fs root (Utf8.encode s)) (hr : Reaches fs root k v)
    (hd : fs.isDirAt (v ++ [Utf8.encode s])) {l? : Option Location}
    (hf : fs.find .inspect (root / s) = .ok (l?, .dir)) :
    Swept fs (Action.stateAfter (removeTree (root / s) fs)) (v ++ [Utf8.encode s]) := by
  obtain ⟨_, _, hr', _, rfl, _⟩ := find_entry (.inl rfl) hs hf
  obtain ⟨_, rfl⟩ := hr.unique hr'
  rw [removeTree, hf]
  simp only [Option.elim_some]
  split
  · rename_i made hremove
    obtain ⟨l, hf', rfl⟩ := removeDir_spec hremove
    obtain ⟨k', w, hw, _, hl, _⟩ := find_entry (.inr rfl) hs hf'
    obtain rfl := Option.some.inj hl
    obtain rfl := hback _ _ hr hd _ _ hw
    exact swept_clear_remove (by simp) hd
  · exact swept_clear hd
  · exact swept_clear hd

/-- What an attempt to discard an entry leaves, unless it fails before anything is removed. -/
theorem discard_swept (hs : IsEntryName (Utf8.encode s))
    (hback : LeadsBack fs root (Utf8.encode s)) :
    (∃ e, discard (root / s) fs = .error e fs) ∨
      ∃ k v, Reaches fs root k v ∧ fs.isDirAt v ∧
        Swept fs (Action.stateAfter (discard (root / s) fs)) (v ++ [Utf8.encode s]) := by
  rw [discard]
  split
  · rename_i hi
    obtain ⟨l?, hf⟩ := inspect_ok hi
    obtain ⟨k, v, hr, hv, _, he⟩ := find_entry (.inl rfl) hs hf
    exact .inr ⟨k, v, hr, hv, removeTree_swept hs hback hr ((isDirAt_iff _ _).mpr he) hf⟩
  · rw [Change.atomic]
    split
    · rename_i made hunlink
      obtain ⟨l, e, hf, rfl⟩ := unlink_spec hunlink
      obtain ⟨k, v, hr, hv, hl, _⟩ := find_entry (.inl rfl) hs hf
      obtain rfl := Option.some.inj hl
      exact .inr ⟨k, v, hr, hv, swept_remove (by simp)⟩
    · exact .inl ⟨_, rfl⟩
  · exact .inl ⟨_, rfl⟩

/-- What an attempt to make a directory anew leaves: an entry is swept, or none as it is not there or
cannot be discarded, and then some missing directories are made, or none. -/
theorem resetDir_swept (hs : IsEntryName (Utf8.encode s))
    (hback : LeadsBack fs root (Utf8.encode s)) :
    ∃ made, (made = fs ∧ (fs.inspect (root / s) = .error (.system .noEntry) ∨
          ∃ e, resetDir (root / s) fs = .error e fs) ∨
        ∃ k v, Reaches fs root k v ∧ fs.isDirAt v ∧ Swept fs made (v ++ [Utf8.encode s])) ∧
      Grows made (Action.stateAfter (resetDir (root / s) fs)) := by
  rw [resetDir]
  split
  · rcases discard_swept hs hback with ⟨e, hfail⟩ | hswept
    · have hreset : (discard (root / s) >>= fun _ => makeDirs (root / s)) fs = .error e fs :=
        Action.bind_error_iff.mpr (.inl hfail)
      refine ⟨fs, .inl ⟨rfl, .inr ⟨e, hreset⟩⟩, ?_⟩
      rw [hreset]
      exact .refl _
    refine ⟨_, .inr hswept, ?_⟩
    refine Action.stateAfter_bind
      (P := fun fs' => Grows (Action.stateAfter (discard (root / s) fs)) fs') ?_ ?_
    · intro e fs' h
      rw [h]
      exact .refl _
    · intro _ made h
      rw [h]
      exact grows_makeDirs _ _
  · rename_i hnone
    exact ⟨fs, .inl ⟨rfl, .inl hnone⟩, grows_makeDirs _ _⟩
  · exact ⟨fs, .inl ⟨rfl, .inr ⟨_, rfl⟩⟩, .refl _⟩

end Discard

namespace Swept

variable {fs fs' : FileSystem} {root : Path} {l v : Location} {n : Name}

theorem loosened (h : Swept fs fs' l) (hlinks : ∀ u, l <+: u → fs.linkAt? u = none) :
    Loosened fs fs' where
  linkAt? u := by
    by_cases hu : l <+: u
    · rw [hlinks u hu, FileSystem.linkAt?]
      by_cases hne : u = l
      · rcases h.self with hs | hs <;> rw [hne, hs]
      · rw [h.below u hu hne]
    · exact linkAt?_congr (h.apart u hu)
  withdrawn := h.withdrawn

end Swept

theorem leadsBack_of_unlinked {fs : FileSystem} {root : Path} {n : Name}
    (hlinks : ∀ u, fs.place root n <+: u → fs.linkAt? u = none) : LeadsBack fs root n := by
  intro k v hr hd k' v' hr'
  rw [place, hr.destination_eq] at hlinks
  have hloosened := (swept_clear hd).loosened hlinks
  rw [← hr'.destination_eq, hloosened.destination_eq hr'.origin?_ne_none, hr.destination_eq]

end FileSystem

end LaunchDist
