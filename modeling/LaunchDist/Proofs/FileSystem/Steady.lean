import LaunchDist.Proofs.FileSystem.Files
import LaunchDist.Proofs.FileSystem.Reset
/-!
# Ways that stay the same

As long as no link comes or goes, a path leads where it led before, if it leads anywhere. Below a place
without links an entry stands where its path says.
-/
namespace LaunchDist

namespace FileSystem

open LaunchDist.Path (Step IsEntryName)

/-- Whether a later state has the same links, and relative paths start where they did, or in a
directory that has been removed. -/
structure Steady (fs fs' : FileSystem) : Prop where
  linkAt? : ∀ u, fs'.linkAt? u = fs.linkAt? u
  start : SameStart fs fs' ∨ 0 < fs'.lostLevels

namespace Steady

variable {fs fs' fs'' : FileSystem} {p : Path} {k : Nat} {v : Location}

theorem trans (h : Steady fs fs') (h' : Steady fs' fs'') : Steady fs fs'' where
  linkAt? u := (h'.linkAt? u).trans (h.linkAt? u)
  start := by
    rcases h'.start with hs' | hlost
    · rcases h.start with hs | hlost
      · exact .inl (hs.trans hs')
      · exact .inr (by rwa [hs'.2])
    · exact .inr hlost

theorem trail_eq (h : Steady fs fs') (hp : p.isAbsolute = true ∨ fs'.lostLevels = 0) :
    fs'.trail p = fs.trail p := by
  refine trail_congr ?_ fun u _ => h.linkAt? u
  rcases h.start with hs | hlost
  · exact .inr hs
  · exact .inl (hp.resolve_right (by omega))

theorem destination_eq (h : Steady fs fs') (hp : p.isAbsolute = true ∨ fs'.lostLevels = 0) :
    fs'.destination p = fs.destination p :=
  destination_congr (h.trail_eq hp)

end Steady

section Changes

variable {fs fs' : FileSystem} {l v home : Location} {ns : List Name}

theorem Writable.steady_put (h : Writable fs l) (mode : Mode) (content : Bytes) :
    Steady fs (fs.put l (.file mode content)) :=
  ⟨h.linkAt?_put mode content, .inl (sameStart_put ..)⟩

theorem steady_plant (h : Plantable fs v ns) : Steady fs (fs.plant v ns) :=
  ⟨linkAt?_plant h, .inl (sameStart_plant ..)⟩

theorem Renewed.steady {root : Path} {n : Name} (h : Renewed fs fs' root n home)
    (hlinks : ∀ u, fs.place root n <+: u → fs.linkAt? u = none) : Steady fs fs' where
  linkAt? u := by
    by_cases hu : fs.place root n <+: u
    · rw [hlinks u hu]
      rcases h.inside u hu with he | he <;> rw [FileSystem.linkAt?, he]
    · rcases h.apart u hu with he | ⟨hn, hd, _⟩
      · exact linkAt?_congr he
      · rw [FileSystem.linkAt?, FileSystem.linkAt?, hn, hd]
  start := h.start.imp_right And.right

end Changes

section Entry

variable {fs : FileSystem} {p : Path} {s : String} {k : Nat} {w : Location}

theorem Reaches.below (hs : IsEntryName (Utf8.encode s)) (h : Reaches fs (p / s) k w)
    (hl : fs.linkAt? (fs.place p (Utf8.encode s)) = none) :
    Reaches fs p k (fs.destination p) ∧ w = fs.place p (Utf8.encode s) ∧
      ∀ u ∈ fs.trail (p / s), u ∈ fs.trail p ∨ u = w := by
  obtain ⟨k', v, hr, hv, hleads⟩ := (reaches_entry_iff hs).mp h
  rw [place, hr.destination_eq] at hl ⊢
  obtain ⟨rfl, rfl⟩ := hleads.eq_of_name hl
  refine ⟨hr, rfl, fun u hu => ?_⟩
  rcases (mem_trail_entry hs hr hv u).mp hu with hu | hu
  · exact .inl hu
  · rw [trailSteps_enter _ _ _ _ _ hl, trailSteps_nil] at hu
    rcases List.mem_cons.mp hu with rfl | hu
    · exact .inl hr.mem_trail
    · exact .inr (List.mem_singleton.mp hu)

end Entry

end FileSystem

end LaunchDist
