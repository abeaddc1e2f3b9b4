import LaunchDist.Proofs.Distribution.Assembly
import LaunchDist.Proofs.Path.Text
/-!
# Generated manifests and what a launcher demands

A generated manifest satisfies every demand but one: a file name may hold a backslash, which no class
path entry may.
-/
namespace LaunchDist

open LaunchDist.Path (IsEntryName isEntryName_encode_iff)

theorem MainClass.ofString_ok {s : String} {main : MainClass} (h : ofString s = .ok main) :
    main.name = Text.trim s ∧ Text.trim s ≠ "" := by
  rw [ofString] at h
  by_cases hblank : Text.trim s = ""
  · rw [if_pos hblank] at h
    cases h
  · rw [if_neg hblank] at h
    cases h
    exact ⟨rfl, hblank⟩

namespace Manifest

theorem exists_of_isLibraryEntry {entry : String} (h : isLibraryEntry entry = true) :
    ∃ name, entry = libraryRoot ++ name ∧ Path.separator ∉ Utf8.encode name ∧
      Utf8.encode name ≠ [] := by
  rw [isLibraryEntry, libraryName] at h
  simp only [Bool.and_eq_true, Bool.not_eq_true', List.isEmpty_eq_false_iff,
    List.contains_eq_mem, decide_eq_false_iff_not] at h
  obtain ⟨⟨hne, hslash⟩, _⟩ := h
  cases hp : libraryRoot.toList.isPrefixOf? entry.toList with
  | none =>
    rw [hp] at hne
    exact absurd rfl hne
  | some name =>
    rw [hp] at hne hslash
    have hentry := List.isPrefixOf?_eq_some_iff_append_eq.mp hp
    refine ⟨String.ofList name, ?_, ?_, ?_⟩
    · apply String.toList_injective
      rw [String.toList_append, String.toList_ofList, hentry]
    · rw [Utf8.separator_mem_encode_iff, String.toList_ofList]
      exact hslash
    · rw [ne_eq, Utf8.encode_eq_nil_iff, String.ofList_eq_empty_iff]
      exact hne

theorem encode_library (name : String) :
    Utf8.encode (libraryRoot ++ name) =
      Utf8.encode "../lib" ++ Path.separator :: Utf8.encode name := by
  rw [Utf8.encode, String.toList_append, List.flatMap_append]
  rfl

/-- From `bin`, a class path entry goes up, to `lib`, and one step on. -/
theorem steps_library {name : String} (hsep : Path.separator ∉ Utf8.encode name)
    (hne : Utf8.encode name ≠ []) :
    (Path.ofString (libraryRoot ++ name)).isAbsolute = false ∧
      (Path.ofString (libraryRoot ++ name)).moves ≠ [] ∧
      ∃ s, (Path.ofString name).steps = [s] ∧
        (Path.ofString (libraryRoot ++ name)).steps = [.up, .name Distribution.libName, s] := by
  obtain ⟨habs, s, hsteps, hmoves⟩ : (Path.ofString name).isAbsolute = false ∧
      ∃ s, (Path.ofString name).steps = [s] ∧ (Path.ofString name).moves = [s] :=
    Path.steps_of_separator_notMem _ hsep hne
  have hjoin : Path.ofString (libraryRoot ++ name) =
      (Path.ofString "../lib").join (Path.ofString name) := by
    rw [Path.join, if_neg (by rw [habs]; decide), if_neg (by decide), Path.ofString,
      encode_library]
    rfl
  have hlib : (Path.ofString "../lib").moves = [.up, .name Distribution.libName] := by decide
  rw [hjoin, Path.isAbsolute_join _ _ habs, Path.moves_join _ _ habs, hmoves,
    Path.steps_join _ _ habs (by rw [hmoves]; exact List.cons_ne_nil _ _), hsteps, hlib]
  exact ⟨by decide, List.cons_ne_nil _ _, s, rfl, rfl⟩

theorem zero_mem_library {name : String} :
    0 ∈ (Path.ofString (libraryRoot ++ name)).bytes ↔ 0 ∈ Utf8.encode name := by
  change 0 ∈ Utf8.encode (libraryRoot ++ name) ↔ _
  rw [encode_library, List.mem_append, List.mem_cons, or_iff_right (by decide),
    or_iff_right (by decide)]

theorem classpath_ne_nil_of_validate {m : Manifest} (h : m.validate = .ok ()) : m.classpath ≠ [] := by
  intro hnil
  unfold validate at h
  split_ifs at h

theorem isLibraryEntry_of_validate {m : Manifest} (h : m.validate = .ok ()) (entry : String)
    (he : entry ∈ m.classpath) : isLibraryEntry entry = true := by
  unfold validate at h
  split_ifs at h
  split at h
  · cases h
  · rename_i hnone
    simpa using List.find?_eq_none.mp hnone entry he

theorem libraryName_append (s : String) : libraryName (libraryRoot ++ s) = s.toList := by
  rw [libraryName, String.toList_append,
    List.isPrefixOf?_eq_some_iff_append_eq.mpr rfl, Option.getD_some]

theorem isLibraryEntry_append_iff {s : String} (h : IsEntryName (Utf8.encode s)) :
    isLibraryEntry (libraryRoot ++ s) = true ↔ '\\' ∉ s.toList := by
  have hname := (isEntryName_encode_iff s).mp h
  rw [isLibraryEntry, libraryName_append]
  simp [hname.ne_empty, hname.slash_notMem]

theorem validate_generate_iff {s : String} {main : MainClass} {artifacts : List Artifact}
    (hmain : MainClass.ofString s = .ok main) (hne : artifacts ≠ []) :
    (generate main artifacts).validate = .ok () ↔
      ∀ a ∈ artifacts, isLibraryEntry a.classpathEntry = true := by
  obtain ⟨hname, hblank⟩ := MainClass.ofString_ok hmain
  have hentrypoint : Text.trim (generate main artifacts).entrypoint ≠ "" := by
    change Text.trim main.name ≠ ""
    rw [hname]
    exact Text.trim_trim_ne_empty hblank
  have hclasspath : (generate main artifacts).classpath ≠ [] := by
    change artifacts.map Artifact.classpathEntry ≠ []
    rwa [ne_eq, List.map_eq_nil_iff]
  have hrelease : (generate main artifacts).javaVersion ∈ supportedReleases := by
    change targetRelease ∈ supportedReleases
    decide
  rw [validate, if_neg (fun h => h rfl), if_neg hentrypoint, if_neg (fun h => h hrelease),
    if_neg hclasspath]
  constructor
  · intro h a ha
    split at h
    · cases h
    · rename_i hnone
      have hentry := List.find?_eq_none.mp hnone a.classpathEntry (List.mem_map_of_mem ha)
      simpa using hentry
  · intro h
    rw [List.find?_eq_none.mpr]
    intro entry hentry
    obtain ⟨a, ha, rfl⟩ := List.mem_map.mp hentry
    simp [h a ha]

end Manifest

end LaunchDist
