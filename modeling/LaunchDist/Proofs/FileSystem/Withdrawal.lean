import LaunchDist.Proofs.FileSystem.Growth
import LaunchDist.Proofs.FileSystem.Passable
/-!
# Paths from a removed directory

When the working directory goes, relative paths start from the nearest directory above it that is left.
A path that climbs out of the removed ones leads where it led before. So no change that keeps the links
lets a path lead to another place, even if the path goes up.
-/
namespace LaunchDist

namespace FileSystem

open LaunchDist.Path (Step namesOf IsEntryName)

/-- Whether the directories at which relative paths start have at most been removed, from the last one
upwards. -/
structure Withdrawn (fs fs' : FileSystem) : Prop where
  workingDir : fs'.workingDir <+: fs.workingDir
  depth : fs'.lostLevels + fs'.workingDir.length = fs.lostLevels + fs.workingDir.length

section Start

variable {fs fs' fs'' : FileSystem} {l : Location}

theorem SameStart.withdrawn (h : SameStart fs fs') : Withdrawn fs fs' :=
  ⟨by rw [h.1], by rw [h.1, h.2]⟩

theorem Withdrawn.trans (h : Withdrawn fs fs') (h' : Withdrawn fs' fs'') : Withdrawn fs fs'' :=
  ⟨h'.workingDir.trans h.workingDir, h'.depth.trans h.depth⟩

/-- What has been removed is what lies between the two places. -/
theorem Withdrawn.exists_below (h : Withdrawn fs fs') :
    ∃ below, fs'.workingDir ++ below = fs.workingDir ∧
      fs'.lostLevels = fs.lostLevels + below.length := by
  obtain ⟨below, hbelow⟩ := h.workingDir
  have hdepth := h.depth
  rw [← hbelow, List.length_append] at hdepth
  exact ⟨below, hbelow, by omega⟩

private theorem withdrawn_retreat (h : l <+: fs.workingDir) : Withdrawn fs (fs.retreat l) := by
  refine ⟨h, ?_⟩
  have hlen := h.length_le
  change fs.lostLevels + (fs.workingDir.length - l.length) + l.length = _
  omega

theorem withdrawn_clear (fs : FileSystem) (l : Location) : Withdrawn fs (fs.clear l) := by
  have hput : Withdrawn fs (fs.put l .empty) := (sameStart_put ..).withdrawn
  rw [clear]
  split
  · exact hput.trans (withdrawn_retreat (by rwa [workingDir_put]))
  · exact hput

theorem withdrawn_remove (fs : FileSystem) (l : Location) : Withdrawn fs (fs.remove l) := by
  have hupdate : Withdrawn fs (fs.update l none) :=
    SameStart.withdrawn ⟨workingDir_update .., lostLevels_update ..⟩
  rw [remove]
  split
  · rename_i hl
    refine hupdate.trans (withdrawn_retreat ?_)
    rw [workingDir_update]
    exact (List.dropLast_prefix l).trans hl
  · exact hupdate

theorem ascend_add (levels more : Nat) (xs : List Step) :
    ascend (levels + more) xs = (ascend levels xs).bind (ascend more) := by
  induction xs generalizing levels with
  | nil =>
    cases levels with
    | zero => rw [Nat.zero_add, ascend_zero]; rfl
    | succ levels => rw [Nat.succ_add]; rfl
  | cons s xs ih =>
    cases levels with
    | zero => rw [Nat.zero_add, ascend_zero]; rfl
    | succ levels =>
      have h := ih (levels + 1)
      rw [Nat.succ_add] at h ⊢
      cases s with
      | here => exact h
      | slash => exact h
      | up => exact ih levels
      | name n => rfl

private theorem getLast?_trailSteps_ascend {k levels : Nat} {xs ys : List Step} {below : Location}
    (h : ascend levels xs = some ys) (hbelow : below.length = levels) :
    (fs.trailSteps k (l ++ below) xs).getLast? = (fs.trailSteps k l ys).getLast? := by
  induction xs generalizing levels below with
  | nil =>
    cases levels with
    | zero =>
      rw [List.length_eq_zero_iff.mp hbelow, List.append_nil, ← Option.some.inj h]
    | succ levels => cases h
  | cons s xs ih =>
    cases levels with
    | zero =>
      rw [List.length_eq_zero_iff.mp hbelow, List.append_nil, ← Option.some.inj h]
    | succ levels =>
      cases s with
      | here => rw [trailSteps_stay _ _ _ _ _ (.inl rfl)]; exact ih h hbelow
      | slash => rw [trailSteps_stay _ _ _ _ _ (.inr rfl)]; exact ih h hbelow
      | name n => cases h
      | up =>
        have hne : below ≠ [] := by
          rintro rfl
          cases hbelow
        rw [trailSteps_up, getLast?_cons_trailSteps, List.dropLast_append_of_ne_nil hne]
        exact ih h (by rw [List.length_dropLast, hbelow]; rfl)

end Start

theorem Reaches.origin?_ne_none {fs : FileSystem} {p : Path} {k : Nat} {v : Location}
    (h : Reaches fs p k v) : fs.origin? p ≠ none := by
  obtain ⟨start, rest, ho, _⟩ := h
  rw [show fs.origin? p = _ from ho]
  exact Option.some_ne_none _

/-- Whether a later state has the same links, and relative paths start where they did or higher up. -/
structure Loosened (fs fs' : FileSystem) : Prop where
  linkAt? : ∀ u, fs'.linkAt? u = fs.linkAt? u
  withdrawn : Withdrawn fs fs'

namespace Loosened

variable {fs fs' fs'' : FileSystem} {p : Path} {k : Nat} {v : Location}

theorem trans (h : Loosened fs fs') (h' : Loosened fs' fs'') : Loosened fs fs'' :=
  ⟨fun u => (h'.linkAt? u).trans (h.linkAt? u), h.withdrawn.trans h'.withdrawn⟩

theorem destination_eq (h : Loosened fs fs') (ho : fs'.origin? p ≠ none) :
    fs'.destination p = fs.destination p := by
  obtain ⟨⟨start, ys⟩, ho⟩ := Option.ne_none_iff_exists'.mp ho
  cases ha : p.isAbsolute with
  | true => exact destination_congr (trail_congr (.inl ha) fun u _ => h.linkAt? u)
  | false =>
    obtain ⟨below, hbelow, hdepth⟩ := h.withdrawn.exists_below
    have hup := ho
    rw [origin?, originOf, ha, if_neg (by decide), hdepth, ascend_add, Option.map_eq_some_iff] at hup
    obtain ⟨zs, hasc, heq⟩ := hup
    cases heq
    obtain ⟨xs, hxs, hys⟩ := Option.bind_eq_some_iff.mp hasc
    have hbefore : fs.origin? p = some (fs.workingDir, xs) := by
      rw [origin?, originOf, ha, if_neg (by decide), hxs]
      rfl
    rw [destination, destination, List.getLastD_eq_getLast?, List.getLastD_eq_getLast?, trail, trail,
      ho, hbefore]
    simp only
    rw [trailSteps_congr fs fs' _ _ _ fun u _ => h.linkAt? u, ← hbelow,
      getLast?_trailSteps_ascend hys rfl]

end Loosened

theorem Grows.loosened {fs fs' : FileSystem} (h : Grows fs fs') : Loosened fs fs' :=
  ⟨h.linkAt?, h.sameStart.withdrawn⟩

end FileSystem

end LaunchDist
