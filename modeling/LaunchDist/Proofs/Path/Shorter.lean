import LaunchDist.Proofs.Path.Components
/-!
# Parents are shorter

The path along fewer components is written with some of the octets of the longer one, in order.
-/
namespace LaunchDist

namespace Path

private theorem intercalate_sublist {xs ys : List Bytes} (h : xs.Sublist ys) :
    ([separator].intercalate xs).Sublist ([separator].intercalate ys) := by
  induction h with
  | slnil => exact List.Sublist.refl _
  | @cons xs ys y _ ih =>
    by_cases hys : ys = []
    · subst hys
      have hnil : ([separator].intercalate xs) = [] := List.sublist_nil.mp ih
      rw [hnil]
      exact List.nil_sublist _
    · rw [List.intercalate_cons_of_ne_nil hys]
      exact ih.trans (List.sublist_append_right _ _)
  | @cons_cons xs ys a h ih =>
    by_cases hxs : xs = []
    · subst hxs
      rw [List.intercalate_singleton]
      by_cases hys : ys = []
      · rw [hys, List.intercalate_singleton]
      · rw [List.intercalate_cons_of_ne_nil hys, List.append_assoc]
        exact List.sublist_append_left _ _
    · have hys : ys ≠ [] := by
        intro hnil
        rw [hnil] at h
        exact hxs (List.sublist_nil.mp h)
      rw [List.intercalate_cons_of_ne_nil hxs, List.intercalate_cons_of_ne_nil hys]
      exact (List.Sublist.refl _).append ih

theorem ofComponents_sublist (absolute : Bool) {xs ys : List Step} (h : xs.Sublist ys) :
    (ofComponents absolute xs).bytes.Sublist (ofComponents absolute ys).bytes := by
  have hrelative := intercalate_sublist (h.map Step.bytes)
  cases absolute with
  | false => exact hrelative
  | true => exact hrelative.cons_cons separator

theorem bytes_of_step? {segment : Bytes} {s : Step} (h : step? segment = some s) :
    s.bytes = segment := by
  unfold step? at h
  split_ifs at h with _ hhere hup
  · cases h
    exact hhere.symm
  · cases h
    exact hup.symm
  · cases h
    rfl

private theorem moves_sublist (p : Path) : (p.moves.map Step.bytes).Sublist p.segments := by
  rw [moves]
  induction p.segments with
  | nil => exact List.Sublist.refl _
  | cons segment rest ih =>
    cases hs : step? segment with
    | none =>
      rw [List.filterMap_cons_none hs]
      exact ih.cons segment
    | some s =>
      rw [List.filterMap_cons_some hs, List.map_cons, bytes_of_step? hs]
      exact ih.cons_cons segment

private theorem intercalate_moves_sublist (p : Path) :
    ([separator].intercalate (p.moves.map Step.bytes)).Sublist p.bytes := by
  have h := intercalate_sublist p.moves_sublist
  rwa [segments, List.intercalate_splitOn] at h

theorem sublist_of_mem_moves {p : Path} {n : Name} (h : .name n ∈ p.moves) : n.Sublist p.bytes := by
  have hone : [Step.name n].Sublist p.moves := List.singleton_sublist.mpr h
  have hname := intercalate_sublist (hone.map Step.bytes)
  rw [List.map_singleton, List.intercalate_singleton] at hname
  exact hname.trans p.intercalate_moves_sublist

private theorem components_sublist_moves (p : Path) : p.components.Sublist p.moves := by
  have hmoves : p.moves = (p.segments.map step?).filterMap id := by
    rw [moves, List.filterMap_map]
    rfl
  rw [components_eq, hmoves]
  unfold normalize
  split
  · rename_i rest hhere
    rw [hhere]
    exact List.filter_sublist.cons_cons Step.here
  · exact List.filter_sublist

theorem components_sublist (p : Path) :
    (ofComponents p.isAbsolute p.components).bytes.Sublist p.bytes := by
  have hparts := intercalate_sublist (p.components_sublist_moves.map Step.bytes)
  cases ha : p.isAbsolute with
  | false => exact hparts.trans p.intercalate_moves_sublist
  | true =>
    obtain ⟨bytes⟩ := p
    rw [isAbsolute, decide_eq_true_eq, List.head?_eq_some_iff] at ha
    obtain ⟨rest, rfl⟩ := ha
    have hmoves : (Path.mk (separator :: rest)).moves = (Path.mk rest).moves := by
      rw [moves, segments, List.splitOn_cons_eq_if_modifyHead, if_pos (by simp)]
      rfl
    rw [hmoves] at hparts
    exact (hparts.trans (intercalate_moves_sublist _)).cons_cons separator

theorem length_join (p q : Path) (hq : q.isAbsolute = false) :
    p.bytes.length + q.bytes.length ≤ (p.join q).bytes.length ∧
      (p.join q).bytes.length ≤ p.bytes.length + q.bytes.length + 1 := by
  rcases bytes_join p q hq with ⟨h, _⟩ | h
  · rw [h, List.length_append]
    omega
  · rw [h, List.length_append, List.length_cons]
    omega

theorem length_join_congr {q q' : Path} (p : Path) (hq : q.isAbsolute = false)
    (hq' : q'.isAbsolute = false) (h : q.bytes.length = q'.bytes.length) :
    (p.join q).bytes.length = (p.join q').bytes.length := by
  simp only [join, hq, hq', Bool.false_eq_true, if_false]
  split
  · simp [h]
  · simp [h]

theorem sublist_join (p q : Path) (hq : q.isAbsolute = false) : p.bytes.Sublist (p.join q).bytes := by
  rcases bytes_join p q hq with ⟨h, _⟩ | h
  · rw [h]
    exact List.sublist_append_left _ _
  · rw [h]
    exact List.sublist_append_left _ _

end Path

end LaunchDist
