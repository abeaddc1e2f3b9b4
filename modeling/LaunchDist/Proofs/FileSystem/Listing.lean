import Mathlib.Data.List.Sort
import LaunchDist.Proofs.FileSystem.Tree
/-!
# Listing a directory

The names in a directory are those at which something stands, each once and in ascending order.
-/
namespace LaunchDist

namespace Node

private theorem mem_insertName (n m : Name) (sorted : List Name) :
    m ∈ insertName n sorted ↔ m = n ∨ m ∈ sorted := by
  induction sorted with
  | nil => rw [insertName, List.mem_singleton, or_iff_left List.not_mem_nil]
  | cons a sorted ih =>
    rw [insertName]
    by_cases hlt : n < a
    · rw [if_pos hlt, List.mem_cons]
    · rw [if_neg hlt]
      by_cases ha : n = a
      · rw [if_pos ha, List.mem_cons, ha]
        exact ⟨.inr, fun h => h.elim .inl id⟩
      · rw [if_neg ha, List.mem_cons, List.mem_cons, ih]
        exact or_left_comm

private theorem pairwise_insertName (n : Name) (sorted : List Name) (h : sorted.Pairwise (· < ·)) :
    (insertName n sorted).Pairwise (· < ·) := by
  induction sorted with
  | nil => exact List.pairwise_singleton _ _
  | cons a sorted ih =>
    obtain ⟨ha, hs⟩ := List.pairwise_cons.mp h
    rw [insertName]
    by_cases hlt : n < a
    · rw [if_pos hlt]
      refine List.pairwise_cons.mpr ⟨fun m hm => ?_, h⟩
      rcases List.mem_cons.mp hm with rfl | hm
      · exact hlt
      · exact List.lt_trans hlt (ha m hm)
    · rw [if_neg hlt]
      by_cases heq : n = a
      · rw [if_pos heq]
        exact h
      · rw [if_neg heq]
        refine List.pairwise_cons.mpr ⟨fun m hm => ?_, ih hs⟩
        rcases (mem_insertName n m sorted).mp hm with rfl | hm
        · by_contra hgt
          exact heq (List.le_antisymm (List.not_lt.mp hgt) (List.not_lt.mp hlt))
        · exact ha m hm

theorem pairwise_names (node : Node) : node.names.Pairwise (· < ·) := by
  cases node with
  | file mode content => exact List.Pairwise.nil
  | link target => exact List.Pairwise.nil
  | socket => exact List.Pairwise.nil
  | dir children =>
    rw [names]
    induction children with
    | nil => exact List.Pairwise.nil
    | cons c children ih => exact pairwise_insertName _ _ ih

theorem mem_names_iff (node : Node) (n : Name) : n ∈ node.names ↔ node.child? n ≠ none := by
  cases node with
  | file mode content => simp [names, child?]
  | link target => simp [names, child?]
  | socket => simp [names, child?]
  | dir children =>
    rw [names, child?]
    induction children with
    | nil => simp
    | cons c children ih =>
      rw [List.foldr_cons, mem_insertName, ih, List.lookup_cons]
      by_cases hn : n = c.1
      · rw [show (n == c.1) = true by simp [hn]]
        simp [hn]
      · rw [show (n == c.1) = false by simp [hn], or_iff_right hn]

end Node

namespace FileSystem

variable (fs : FileSystem) (l : Location)

theorem pairwise_namesAt : (fs.namesAt l).Pairwise (· < ·) := by
  rw [namesAt]
  cases fs.node? l with
  | none => exact List.Pairwise.nil
  | some node => exact node.pairwise_names

theorem nodup_namesAt : (fs.namesAt l).Nodup := by
  refine (fs.pairwise_namesAt l).imp ?_
  rintro n m h rfl
  exact List.lt_irrefl n h

theorem mem_namesAt_iff (n : Name) : n ∈ fs.namesAt l ↔ fs.entry? (l ++ [n]) ≠ none := by
  rw [namesAt, entry?, node?_append, ne_eq, Option.map_eq_none_iff]
  cases fs.node? l with
  | none => simp
  | some node =>
    rw [Option.map_some, Option.getD_some, Node.mem_names_iff, Option.bind_some, Node.at?]
    cases node.child? n with
    | none => rfl
    | some child => simp [Node.at?]

theorem namesAt_eq_of_iff {fs fs' : FileSystem} {l l' : Location}
    (h : ∀ n, fs'.entry? (l' ++ [n]) = none ↔ fs.entry? (l ++ [n]) = none) :
    fs'.namesAt l' = fs.namesAt l := by
  apply (fs'.pairwise_namesAt l').eq_of_mem_iff (fs.pairwise_namesAt l)
  intro n
  rw [mem_namesAt_iff, mem_namesAt_iff, ne_eq, h]

theorem namesAt_congr {fs fs' : FileSystem} {l : Location}
    (h : ∀ n, fs'.entry? (l ++ [n]) = fs.entry? (l ++ [n])) : fs'.namesAt l = fs.namesAt l :=
  namesAt_eq_of_iff fun n => by rw [h]

end FileSystem

end LaunchDist
