import Mathlib.Data.List.Dedup
import LaunchDist.Proofs.Distribution.Layout
/-!
# Libraries that share a name

Of the artifacts that share a file name only the last one stays in `lib`. So it holds fewer files than
there are artifacts just if a name has been reported as shared.
-/
namespace LaunchDist

namespace FileSystem

variable {fs : FileSystem} {p : Path} {l : Location}

/-- The names of the files in the directory at a path; there are none if there is no directory. -/
def filesIn (fs : FileSystem) (p : Path) : List Name :=
  match fs.find .follow p with
  | .ok (some l, .dir) => (fs.namesAt l).filter fun n => match fs.entry? (l ++ [n]) with
    | some (.file _ _) => true
    | _ => false
  | _ => []

theorem filesIn_of_find (h : fs.find .follow p = .ok (some l, .dir))
    (hfiles : ∀ n e, fs.entry? (l ++ [n]) = some e → ∃ mode content, e = .file mode content) :
    fs.filesIn p = fs.namesAt l := by
  rw [filesIn, h]
  refine List.filter_eq_self.mpr fun n hn => ?_
  obtain ⟨e, he⟩ := Option.ne_none_iff_exists'.mp ((mem_namesAt_iff _ _ n).mp hn)
  obtain ⟨mode, content, rfl⟩ := hfiles n e he
  simp only [he]

theorem filesIn_of_not_isDir (h : ¬ fs.isDir p) : fs.filesIn p = [] := by
  rw [filesIn]
  split
  · rename_i hf
    rw [isDir, stat_of_find hf] at h
    exact absurd rfl h
  · rfl

end FileSystem

namespace Distribution

open FileSystem
open LaunchDist.Path (Step IsEntryName)

section Names

variable {before fs : FileSystem} {root : Path} {inputs : AssemblyInputs} {home : Location}
  {c : Contents}

theorem Assembled.filesIn_lib (h : Assembled before fs root inputs home c) :
    (fs.filesIn (libDirOf root)).Nodup ∧ ∀ n, n ∈ fs.filesIn (libDirOf root) ↔
      ∃ a ∈ inputs.artifacts, Utf8.encode a.fileName = n := by
  have hfind := h.building.find_part isEntryName_lib (.inl rfl) h.nameable_lib
  have hcontents := h.building.contents libName (.inl rfl)
  rw [filesIn_of_find (p := libDirOf root) hfind fun n e he =>
    h.building.isFile _ n e ((hcontents n).symm.trans he)]
  refine ⟨nodup_namesAt .., fun n => ?_⟩
  rw [mem_namesAt_iff, ← h.lib_ne_none_iff]
  exact not_congr (by rw [← hcontents n]; rfl)

theorem length_eq_iff_nodup {names : List Name} {artifacts : List Artifact} (hnodup : names.Nodup)
    (hmem : ∀ n, n ∈ names ↔ ∃ a ∈ artifacts, Utf8.encode a.fileName = n) :
    names.length = artifacts.length ↔ (artifacts.map Artifact.fileName).Nodup := by
  have hperm : names.Perm ((artifacts.map Artifact.fileName).dedup.map Utf8.encode) := by
    rw [List.perm_ext_iff_of_nodup hnodup
      ((List.nodup_dedup _).map Utf8.encode_injective)]
    intro n
    rw [hmem]
    simp
  rw [hperm.length_eq, List.length_map]
  constructor
  · intro hlength
    rw [← List.dedup_eq_self]
    exact (List.dedup_sublist _).eq_of_length (by rw [hlength, List.length_map])
  · intro hdistinct
    rw [hdistinct.dedup, List.length_map]

end Names

section Run

variable {root : Path} {inputs : AssemblyInputs} {w w' : Workspace} {d : Distribution}

/-- No artifact is lost in `lib` just if no name is shared. -/
theorem length_filesIn_lib_iff (hup : Step.up ∉ root.steps)
    (hartifacts : ∀ a ∈ inputs.artifacts, ∃ fs p, Artifact.atPath fs p = .ok a)
    (h : assemble root inputs w = .ok d w') :
    (w'.files.filesIn (libDirOf root)).length = inputs.artifacts.length ↔
      Artifact.sharedFileNames inputs.artifacts = [] := by
  rw [Artifact.sharedFileNames_eq_nil_iff]
  obtain ⟨_, home, ⟨c, hassembled⟩ | ⟨hnil, _, hwithout⟩⟩ := assemble_outcome
    ((Path.up_notMem_steps_iff _).mp hup) (isEntryName_of_artifacts hartifacts) h
  · obtain ⟨hnodup, hmem⟩ := hassembled.filesIn_lib
    exact length_eq_iff_nodup hnodup hmem
  · rw [filesIn_of_not_isDir hwithout.not_isDir, hnil]
    simp

end Run

/-- The file names reported are those that several artifacts have, each one once, in the order of their
second occurrences; and an assembled distribution has as many libraries as there are artifacts just if
none is reported. -/
theorem sharedFileNames_exact (artifacts : List Artifact) :
    (∀ w, Artifact.warnOfShared artifacts w = .ok (Artifact.sharedFileNames artifacts) { w with
      log := w.log ++ (Artifact.sharedFileNames artifacts).map .sharedFileName }) ∧
    (Artifact.sharedFileNames artifacts).Nodup ∧
    (∀ name, name ∈ Artifact.sharedFileNames artifacts ↔
      2 ≤ (artifacts.map Artifact.fileName).count name) ∧
    (Artifact.sharedFileNames artifacts).Pairwise
      (Artifact.Earlier (artifacts.map Artifact.fileName)) ∧
    ∀ (root : Path) (inputs : AssemblyInputs) (w w' : Workspace) (d : Distribution),
      inputs.artifacts = artifacts → Step.up ∉ root.steps →
      (∀ a ∈ artifacts, ∃ fs p, Artifact.atPath fs p = .ok a) →
      assemble root inputs w = .ok d w' →
      ((w'.files.filesIn (libDirOf root)).length = artifacts.length ↔
        Artifact.sharedFileNames artifacts = []) := by
  refine ⟨Artifact.warnOfShared_eq artifacts, Artifact.nodup_sharedFileNames artifacts,
    fun _ => Artifact.mem_sharedFileNames_iff, Artifact.pairwise_sharedFileNames artifacts, ?_⟩
  rintro root inputs w w' d rfl hup hartifacts h
  exact length_filesIn_lib_iff hup hartifacts h

private def namesakesManifest : Manifest :=
  ⟨"java", "Main", 21, ["../lib/a.jar", "../lib/b.jar", "../lib/a.jar"]⟩

/-- Three libraries, two of which have the same name in different directories. -/
private def namesakesFiles : FileSystem where
  children := [
    (Utf8.encode "a.jar", .file 0o644 (Utf8.encode "first")),
    (Utf8.encode "b.jar", .file 0o644 (Utf8.encode "other")),
    (Utf8.encode "old", .dir [(Utf8.encode "a.jar", .file 0o644 (Utf8.encode "second"))]),
    (Utf8.encode "run", .file 0o755 (Utf8.encode "launcher")),
    (Utf8.encode "m.json", .file 0o600 (Utf8.encode namesakesManifest.render))]
  workingDir := []

private def namesakes : AssemblyInputs where
  programName := "app"
  launcher := Path.ofString "run"
  manifest := Path.ofString "m.json"
  artifacts := [⟨"a.jar", Path.ofString "/a.jar"⟩, ⟨"b.jar", Path.ofString "/b.jar"⟩,
    ⟨"a.jar", Path.ofString "/old/a.jar"⟩]

theorem sharedFileNames_exact_namesakes :
    Artifact.sharedFileNames namesakes.artifacts = ["a.jar"] ∧
      ∃ d w', assemble (Path.ofString "dist") namesakes ⟨namesakesFiles, []⟩ = .ok d w' ∧
        (w'.files.filesIn (libDirOf (Path.ofString "dist"))).length ≠ 3 := by
  have hf : namesakesFiles.find .follow namesakes.manifest =
      .ok (some [Utf8.encode "m.json"], .file 0o600 (Utf8.encode namesakesManifest.render)) := by rfl
  have hshared : Artifact.sharedFileNames namesakes.artifacts = ["a.jar"] := by decide
  have hartifacts : ∀ a ∈ namesakes.artifacts, ∃ fs p, Artifact.atPath fs p = .ok a := by
    intro a ha
    refine ⟨namesakesFiles, a.path, ?_⟩
    revert a
    decide +kernel
  obtain ⟨d, w', h⟩ :
      ∃ d w', assemble (Path.ofString "dist") namesakes ⟨namesakesFiles, []⟩ = .ok d w' :=
    exists_assemble (by decide) (Manifest.atPath_of_find hf) (by decide) (by decide +kernel)
  refine ⟨hshared, d, w', h, fun hlength => ?_⟩
  have hnone := ((sharedFileNames_exact namesakes.artifacts).2.2.2.2 _ namesakes _ w' d rfl
    (by decide +kernel) hartifacts h).mp hlength
  rw [hshared] at hnone
  cases hnone

end Distribution

end LaunchDist
