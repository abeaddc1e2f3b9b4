import Mathlib.Data.String.Basic
import LaunchDist.Proofs.Path.Components
import LaunchDist.Proofs.Text
/-!
# Paths that are written as text

The segments of such a path are what stands between the slashes of the text.
-/
namespace LaunchDist

namespace Utf8

theorem separator_mem_encode_iff (s : String) : Path.separator ∈ encode s ↔ '/' ∈ s.toList := by
  rw [encode, List.mem_flatMap]
  constructor
  · rintro ⟨c, hc, hsep⟩
    rwa [eq_slash_of_mem hsep] at hc
  · intro h
    exact ⟨'/', h, by decide⟩

theorem encode_eq_nil_iff (s : String) : encode s = [] ↔ s = "" :=
  encode_injective.eq_iff' rfl

theorem encode_intercalate (parts : List String) :
    encode ("/".intercalate parts) = [Path.separator].intercalate (parts.map encode) := by
  rw [encode, String.toList_intercalate]
  induction parts with
  | nil => rfl
  | cons part parts ih =>
    cases parts with
    | nil => simp [encode]
    | cons next parts =>
      rw [List.map_cons, List.map_cons, List.map_cons, List.intercalate_cons_cons,
        List.flatMap_append, List.flatMap_append, ← List.map_cons, ih, List.map_cons,
        List.intercalate_cons_cons]
      rfl

end Utf8

namespace Path

theorem segments_intercalate {parts : List String} (hne : parts ≠ [])
    (hparts : ∀ part ∈ parts, '/' ∉ part.toList) :
    (ofString ("/".intercalate parts)).segments = parts.map Utf8.encode := by
  rw [segments, ofString, Utf8.encode_intercalate]
  refine List.splitOn_intercalate _ (fun bytes hb => ?_) (by simpa using hne)
  obtain ⟨part, hpart, rfl⟩ := List.mem_map.mp hb
  rw [Utf8.separator_mem_encode_iff]
  exact hparts part hpart

theorem exists_intercalate (s : String) :
    ∃ parts, parts ≠ [] ∧ (∀ part ∈ parts, '/' ∉ part.toList) ∧ s = "/".intercalate parts := by
  refine ⟨(s.toList.splitOn '/').map String.ofList, ?_, fun part hpart => ?_, ?_⟩
  · simp
  · obtain ⟨cs, hcs, rfl⟩ := List.mem_map.mp hpart
    rw [String.toList_ofList]
    exact notMem_of_mem_splitOn '/' s.toList cs hcs
  · apply String.toList_injective
    rw [String.toList_intercalate, List.map_map]
    have hid : String.toList ∘ String.ofList = id := funext fun _ => String.toList_ofList
    rw [hid, List.map_id]
    exact (List.intercalate_splitOn '/').symm

/-- Whether a text is a file name: a single segment that is neither a dot nor two. -/
structure IsFileName (s : String) : Prop where
  ne_empty : s ≠ ""
  ne_dot : s ≠ "."
  ne_dots : s ≠ ".."
  slash_notMem : '/' ∉ s.toList

theorem isEntryName_encode_iff (s : String) : IsEntryName (Utf8.encode s) ↔ IsFileName s := by
  have hstep : step? (Utf8.encode s) = some (.name (Utf8.encode s)) ↔
      s ≠ "" ∧ s ≠ "." ∧ s ≠ ".." := by
    have hdot : Utf8.encode s = Utf8.encode "." ↔ s = "." := Utf8.encode_injective.eq_iff
    have hdots : Utf8.encode s = Utf8.encode ".." ↔ s = ".." := Utf8.encode_injective.eq_iff
    unfold step?
    simp only [Utf8.encode_eq_nil_iff, hdot, hdots]
    split_ifs <;> simp_all
  rw [IsEntryName, Utf8.separator_mem_encode_iff, hstep]
  constructor
  · rintro ⟨hslash, hempty, hdot, hdots⟩
    exact ⟨hempty, hdot, hdots, hslash⟩
  · rintro ⟨hempty, hdot, hdots, hslash⟩
    exact ⟨hslash, hempty, hdot, hdots⟩

end Path

end LaunchDist
