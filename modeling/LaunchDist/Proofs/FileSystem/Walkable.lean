import LaunchDist.Proofs.FileSystem.Linkless
/-!
# Paths that can be looked up but for their length

A path below one that can be walked can be walked as well, if each name may be that of an entry. What
has once been looked up has such names.
-/
namespace LaunchDist

namespace FileSystem

open LaunchDist.Path (Step namesOf IsEntryName)

/-- Whether a directory may have an entry of the name. -/
structure Usable (n : Name) : Prop where
  isEntryName : IsEntryName n
  zero_notMem : 0 ∉ n
  length_le : n.length ≤ maxNameLength

instance (n : Name) : Decidable (Usable n) :=
  decidable_of_iff (IsEntryName n ∧ 0 ∉ n ∧ n.length ≤ maxNameLength)
    ⟨fun ⟨hn, hzero, hlen⟩ => ⟨hn, hzero, hlen⟩, fun ⟨hn, hzero, hlen⟩ => ⟨hn, hzero, hlen⟩⟩

/-- Whether a path that does not go up can be looked up from where it starts, its length apart. -/
structure Walkable (fs : FileSystem) (p : Path) : Prop where
  zero_notMem : 0 ∉ p.bytes
  up_notMem : Step.up ∉ p.moves
  not_lost : p.isAbsolute = true ∨ fs.lostLevels = 0
  length_le : ∀ n ∈ namesOf p.moves, n.length ≤ maxNameLength
  start : fs.isDirAt (fs.startOf p.isAbsolute)

namespace Walkable

variable {fs : FileSystem} {p : Path} {s : String}

theorem straight (h : Walkable fs p) (hne : p.bytes ≠ []) (hlen : isTooLong p = false) :
    Straight fs p :=
  ⟨⟨hlen, h.zero_notMem, hne⟩, h.up_notMem, h.not_lost, h.length_le, h.start⟩

theorem entry (h : Walkable fs p) (hs : Usable (Utf8.encode s)) : Walkable fs (p / s) := by
  have habs := Path.isAbsolute_entry p s hs.isEntryName
  have hmoves := Path.moves_entry p s hs.isEntryName
  refine ⟨?_, ?_, by rw [habs]; exact h.not_lost, fun n hn => ?_, by rw [habs]; exact h.start⟩
  · change 0 ∉ (p.join (Path.ofString s)).bytes
    rw [Path.zero_mem_join p (Path.ofString s) hs.isEntryName.isAbsolute, not_or]
    exact ⟨h.zero_notMem, hs.zero_notMem⟩
  · exact (Path.up_notMem_moves_entry p s hs.isEntryName).mpr h.up_notMem
  · rw [hmoves, Path.namesOf_append] at hn
    rcases List.mem_append.mp hn with hn | hn
    · exact h.length_le n hn
    · obtain rfl := List.mem_singleton.mp hn
      exact hs.length_le

theorem straight_entry (h : Walkable fs p) (hs : Usable (Utf8.encode s))
    (hlen : isTooLong (p / s) = false) : Straight fs (p / s) :=
  (h.entry hs).straight (Path.bytes_ne_nil_of_steps (Path.steps_entry p s hs.isEntryName)) hlen

end Walkable

section Canonical

variable {fs : FileSystem} {p : Path} {l : Location} {n : Name}

theorem lookupSteps_of_canonicalize (h : fs.canonicalize p = .ok l) :
    0 ∉ p.bytes ∧ p.bytes ≠ [] ∧ fs.origin? p = some (fs.startOf p.isAbsolute, p.steps) ∧
      fs.lookupSteps .canonical maxLinks (fs.startOf p.isAbsolute) p.steps = .ok (.found l) := by
  have hr : fs.resolve .canonical p = .ok (.found l) := by
    rw [canonicalize] at h
    split at h
    · rename_i heq
      rw [heq, Except.ok.inj h]
    · cases h
    · cases h
  rw [resolve] at hr
  split_ifs at hr with hzero hnil habs hlost
  · refine ⟨by simpa using hzero, hnil, originOf_eq_start _ _ _ (.inl habs), ?_⟩
    rw [startOf, if_pos habs]
    cases hs : fs.lookupSteps .canonical maxLinks [] p.steps with
    | error e => rw [hs] at hr; cases hr
    | ok spot => rw [hs] at hr; cases hr; rfl
  · have hlevels : fs.lostLevels = 0 := Nat.eq_zero_of_not_pos fun hpos => hlost ⟨rfl, hpos⟩
    refine ⟨by simpa using hzero, hnil, originOf_eq_start _ _ _ (.inr hlevels), ?_⟩
    rw [hlevels, lookupRelative] at hr
    rw [startOf, if_neg habs]
    cases hs : fs.lookupSteps .canonical maxLinks fs.workingDir p.steps with
    | error e => rw [hs] at hr; cases hr
    | ok spot => rw [hs] at hr; cases hr; rfl

theorem usable_of_canonicalize (h : fs.canonicalize p = .ok l) (hn : p.fileName? = some n) :
    Usable n := by
  obtain ⟨hzero, _, _, hs⟩ := lookupSteps_of_canonicalize h
  have hmem := Path.mem_moves_of_fileName? hn
  refine ⟨Path.isComponent_of_mem_moves p _ hmem, ?_, ?_⟩
  · exact fun h0 => hzero ((Path.sublist_of_mem_moves hmem).subset h0)
  · apply length_le_of_lookupSteps hs
    rw [Path.namesOf_steps]
    exact List.mem_filterMap.mpr ⟨_, hmem, rfl⟩

end Canonical

end FileSystem

end LaunchDist
