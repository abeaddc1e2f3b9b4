import LaunchDist.Proofs.Distribution.Layout
import LaunchDist.Proofs.Distribution.Refusal
import LaunchDist.Proofs.Manifest.Rules
/-!
# Checking what has been assembled

The check of a distribution accepts what has been assembled from a valid manifest, and reports what the
manifest says. It takes the way from `bin` to `lib`, which makes its paths longer than those assembled.
-/
namespace LaunchDist

namespace Distribution

open FileSystem
open LaunchDist.Path (Step IsEntryName)

variable {before fs : FileSystem} {root : Path} {inputs : AssemblyInputs} {home : Location}
  {c : Contents}

theorem Assembled.isFile_library (h : Assembled before fs root inputs home c) {a : Artifact}
    (ha : a ∈ inputs.artifacts) (hlong : isTooLong (binDirOf root / a.classpathEntry) = false) :
    fs.isFile (binDirOf root / a.classpathEntry) := by
  have hpath := h.libraries.entryPath a ha
  obtain ⟨habs, hmoves, s, hs, hsteps⟩ :=
    Manifest.steps_library hpath.isEntryName.1 hpath.isEntryName.ne_nil
  obtain rfl : s = .name (Utf8.encode a.fileName) :=
    (List.cons.inj (hs.symm.trans hpath.isEntryName.steps)).1
  obtain ⟨k, hr⟩ := h.building.reaches_part isEntryName_bin (.inr rfl)
  have hbin := h.building.isDirAt (.inr rfl : IsPart binName)
  have hlib := h.building.isDirAt (.inl rfl : IsPart libName)
  have hhome : fs.isDirAt home := isDirAt_of_prefix fs _ _ hbin (List.prefix_append _ _)
  obtain ⟨e, he⟩ := Option.ne_none_iff_exists'.mp (h.libraries.ne_none a ha)
  obtain ⟨mode, content, rfl⟩ := h.building.isFile _ _ _ he
  have hentry : fs.entry? (home ++ [libName] ++ [Utf8.encode a.fileName]) =
      some (.file mode content) := by rw [h.building.contents _ (.inl rfl), he]
  have hleads : Leads fs k (home ++ [binName])
      (Path.ofString (Manifest.libraryRoot ++ a.fileName)).steps k
      (home ++ [libName] ++ [Utf8.encode a.fileName]) := by
    rw [hsteps]
    refine .up hbin ?_
    rw [List.dropLast_concat]
    refine .enter hhome (by decide) ?_ (linkAt?_of_isDirAt hlib)
      (.enter hlib hpath.length_le ?_ (h.building.linkAt?_contents (.inl rfl) _) (.done _ _))
    · rw [h.building.dir _ (.inl rfl)]
      exact Option.some_ne_none _
    · rw [hentry]
      exact Option.some_ne_none _
  have hreaches := hr.join hbin habs hmoves hleads
  have hjoin : binDirOf root / a.classpathEntry =
      (binDirOf root).join (Path.ofString (Manifest.libraryRoot ++ a.fileName)) := rfl
  have hzero : 0 ∉ (binDirOf root / a.classpathEntry).bytes := by
    rw [hjoin, Path.zero_mem_join _ _ habs]
    rintro (hz | hz)
    · exact h.nameable_bin.zero_notMem hz
    · exact hpath.nameable.zero_notMem ((Path.zero_mem_join (libDirOf root) _
        hpath.isEntryName.isAbsolute).mpr (.inr (Manifest.zero_mem_library.mp hz)))
  have hne : (binDirOf root / a.classpathEntry).bytes ≠ [] := by
    apply Path.bytes_ne_nil_of_moves
    rw [hjoin, Path.moves_join _ _ habs]
    exact fun hnil => hmoves (List.append_eq_nil_iff.mp hnil).2
  have hf : fs.find .follow (binDirOf root / a.classpathEntry) = _ :=
    find_follow_iff.mpr ⟨⟨hlong, hzero, hne⟩, ⟨k, hreaches⟩, hentry⟩
  rw [isFile, stat_of_find hf]

private theorem otherNames_of_mem {names : List Name} {program : String} (hnodup : names.Nodup)
    (hne : program ≠ Manifest.fileName)
    (hmem : ∀ n, n ∈ names ↔ n = Utf8.encode program ∨ n = Utf8.encode Manifest.fileName) :
    otherNames names = [program] := by
  have hperm : names.Perm [Utf8.encode program, Utf8.encode Manifest.fileName] := by
    refine (List.perm_ext_iff_of_nodup hnodup ?_).mpr fun n => ?_
    · simpa using fun heq => hne (Utf8.encode_injective heq)
    · rw [hmem]
      simp
  have hother := (hperm.map Utf8.decodeLossy).filter fun s => decide (s ≠ Manifest.fileName)
  rw [List.map_cons, List.map_singleton, Utf8.decodeLossy_encode, Utf8.decodeLossy_encode,
    List.filter_cons_of_pos (by simpa using hne), List.filter_cons_of_neg (by simp)] at hother
  exact List.perm_singleton.mp hother

theorem Assembled.atPath_manifest (h : Assembled before fs root inputs home c)
    (hs : Source before root inputs.manifest) {m : Manifest}
    (hm : Manifest.atPath before inputs.manifest = .ok m) :
    Manifest.atPath fs (binDirOf root / Manifest.fileName) = .ok m := by
  obtain ⟨e, hcopy, hc⟩ := h.manifest
  obtain ⟨mode, content, text, hstat, hdecode, hparse⟩ := Manifest.atPath_ok_iff.mp hm
  obtain rfl := (hcopy.held hs).2 _ hstat
  have hf : fs.find .follow (binDirOf root / Manifest.fileName) = _ :=
    (h.building.find_file isEntryName_bin (.inr rfl) h.manifestPath hc).1
  exact Manifest.atPath_ok_iff.mpr ⟨mode, content, text, stat_of_find hf, hdecode, hparse⟩

theorem Assembled.check_ok {w : Workspace} (h : Assembled before w.files root inputs home c)
    (hs : Source before root inputs.manifest) {m : Manifest}
    (hm : Manifest.atPath before inputs.manifest = .ok m) (hvalid : m.validate = .ok ())
    (hclasspath : m.classpath = inputs.artifacts.map Artifact.classpathEntry)
    (hlong : ∀ a ∈ inputs.artifacts, isTooLong (binDirOf root / a.classpathEntry) = false) :
    ∃ w', check root w = .ok ⟨inputs.programName, m.entrypoint, m.javaVersion, m.classpath⟩ w' := by
  have hbin : w.files.isDir (binDirOf root) :=
    h.building.isDir_part isEntryName_bin (.inr rfl) h.nameable_bin
  have hlib : w.files.isDir (libDirOf root) :=
    h.building.isDir_part isEntryName_lib (.inl rfl) h.nameable_lib
  have hsole : soleLauncher w.files root = .ok inputs.programName := by
    obtain ⟨names, hlist, hnodup, hmem⟩ := h.binNames
    rw [soleLauncher, hlist]
    simp only [otherNames_of_mem hnodup h.program_ne hmem]
  have hinspect : Distribution.inspect w.files root m =
      .ok ⟨inputs.programName, m.entrypoint, m.javaVersion, m.classpath⟩ := by
    refine inspect_ok_iff.mpr ⟨hvalid, ?_, _, hsole, rfl⟩
    intro entry he
    rw [hclasspath] at he
    obtain ⟨a, ha, rfl⟩ := List.mem_map.mp he
    exact h.isFile_library ha (hlong a ha)
  rw [check_eq_inspect hbin hlib (h.atPath_manifest hs hm), hinspect]
  exact ⟨_, rfl⟩

/-- What has been assembled from a valid manifest passes the check, as long as no path that the check
looks up is longer than the system takes. It does not matter where libraries and launcher come from. -/
theorem check_assemble (root : Path) (inputs : AssemblyInputs) (w w' : Workspace)
    (d : Distribution) (m : Manifest) (hup : Step.up ∉ root.steps)
    (hartifacts : ∀ a ∈ inputs.artifacts, ∃ fs p, Artifact.atPath fs p = .ok a)
    (hmanifest : Avoids w.files root inputs.manifest)
    (hm : Manifest.atPath w.files inputs.manifest = .ok m) (hvalid : m.validate = .ok ())
    (hlong : ∀ a ∈ inputs.artifacts, isTooLong (binDirOf root / a.classpathEntry) = false)
    (h : assemble root inputs w = .ok d w') :
    ∃ w'', check root w' =
      .ok ⟨inputs.programName, m.entrypoint, m.javaVersion, m.classpath⟩ w'' := by
  have hclasspath : m.classpath = inputs.artifacts.map Artifact.classpathEntry := by
    obtain ⟨_, ⟨m', hm', heq⟩, _⟩ := assemble_ok_iff.mp h
    cases hm.symm.trans hm'
    exact heq
  have hne : inputs.artifacts ≠ [] := by
    intro hnil
    rw [hnil] at hclasspath
    exact Manifest.classpath_ne_nil_of_validate hvalid hclasspath
  obtain ⟨_, _, home, c, hassembled⟩ := assemble_spec ((Path.up_notMem_steps_iff _).mp hup)
    (isEntryName_of_artifacts hartifacts) (.inl hne) h
  exact hassembled.check_ok (source_of_avoids hmanifest) hm hvalid hclasspath hlong

theorem check_assemble_looseFiles :
    ∃ d w' w'', assemble (Path.ofString "dist") looseInputs ⟨looseFiles, []⟩ = .ok d w' ∧
      check (Path.ofString "dist") w' = .ok ⟨"app", "Main", 21, ["../lib/a.jar"]⟩ w'' := by
  obtain ⟨d, w', h⟩ := assemble_looseFiles
  have hartifacts : ∀ a ∈ looseInputs.artifacts, ∃ fs p, Artifact.atPath fs p = .ok a := by
    intro a ha
    obtain rfl := List.mem_singleton.mp ha
    exact ⟨looseFiles, Path.ofString "a.jar", by decide +kernel⟩
  obtain ⟨w'', hcheck⟩ := check_assemble _ _ ⟨looseFiles, []⟩ w' d looseManifest
    (by decide +kernel) hartifacts (by decide +kernel) atPath_looseFiles (by decide +kernel)
    (by decide +kernel) h
  exact ⟨d, w', w'', h, hcheck⟩

theorem not_isTooLong_of_check {w w' : Workspace} {report : DistributionReport}
    (h : check root w = .ok report w') :
    ∃ m, Manifest.atPath w.files (binDirOf root / Manifest.fileName) = .ok m ∧
      ∀ entry ∈ m.classpath, isTooLong (binDirOf root / entry) = false := by
  obtain ⟨_, _, m, hm, hinspect⟩ := check_ok h
  refine ⟨m, hm, fun entry he => ?_⟩
  obtain ⟨l, mode, content, hf⟩ := isFile_iff.mp ((inspect_ok_iff.mp hinspect).2.1 entry he)
  exact (nameable_of_find hf).isTooLong

/-- A root whose path leaves just enough room for the paths of what is assembled there. -/
def longRoot : Path :=
  ⟨Utf8.encode "d" ++ List.replicate 4059 Path.separator⟩

def longManifest : Manifest :=
  ⟨"java", "Main", 21, ["../lib/aaaaaaaaaaaaaaaaaaaaaaaaaa.jar"]⟩

def longInputs : AssemblyInputs where
  programName := "app"
  launcher := Path.ofString "launcher"
  manifest := Path.ofString "m.json"
  artifacts := [⟨"aaaaaaaaaaaaaaaaaaaaaaaaaa.jar", Path.ofString "/aaaaaaaaaaaaaaaaaaaaaaaaaa.jar"⟩]

def longFiles : FileSystem where
  children := [
    (Utf8.encode "launcher", .file 0o755 (Utf8.encode "run")),
    (Utf8.encode "aaaaaaaaaaaaaaaaaaaaaaaaaa.jar", .file 0o644 (Utf8.encode "jar")),
    (Utf8.encode "m.json", .file 0o644 (Utf8.encode longManifest.render)),
    (Utf8.encode "d", .dir [])]
  workingDir := []

private theorem longFiles_avoids (p : Path)
    (h : ∀ u ∈ longFiles.trail p, ¬ [Utf8.encode "d"] <+: u) : Avoids longFiles longRoot p := by
  have hdest : longFiles.destination longRoot = [Utf8.encode "d"] := by decide +kernel
  rintro u hu (hp | hp)
  · rw [place, hdest] at hp
    exact h u hu ((List.prefix_append _ _).trans hp)
  · rw [place, hdest] at hp
    exact h u hu ((List.prefix_append _ _).trans hp)

private theorem longFiles_artifact :
    ∀ a ∈ longInputs.artifacts, Artifact.atPath longFiles a.path = .ok a := by
  decide +kernel

private theorem atPath_longFiles :
    Manifest.atPath longFiles longInputs.manifest = .ok longManifest := by
  have hf : longFiles.find .follow longInputs.manifest =
      .ok (some [Utf8.encode "m.json"], .file 0o644 (Utf8.encode longManifest.render)) := by rfl
  exact Manifest.atPath_of_find hf

private theorem longFiles_assemble :
    ∃ d w', assemble longRoot longInputs ⟨longFiles, []⟩ = .ok d w' :=
  exists_assemble (by decide) atPath_longFiles (by decide) (by decide +kernel)

example : isTooLong (binDirOf longRoot / "../lib/aaaaaaaaaaaaaaaaaaaaaaaaaa.jar") = true := by
  decide +kernel

/-- The check looks up longer paths than the assembly, so it does not pass all that is assembled. -/
theorem check_longFiles_fails :
    Step.up ∉ longRoot.steps ∧
    (∀ a ∈ longInputs.artifacts, Artifact.atPath longFiles a.path = .ok a) ∧
    (∀ a ∈ longInputs.artifacts, Avoids longFiles longRoot a.path) ∧
    Avoids longFiles longRoot longInputs.launcher ∧ Avoids longFiles longRoot longInputs.manifest ∧
    Manifest.atPath longFiles longInputs.manifest = .ok longManifest ∧
    longManifest.validate = .ok () ∧
    ∃ d w', assemble longRoot longInputs ⟨longFiles, []⟩ = .ok d w' ∧
      ∀ report w'', check longRoot w' ≠ .ok report w'' := by
  have hup : Step.up ∉ longRoot.steps := by decide +kernel
  have hlibraries : ∀ a ∈ longInputs.artifacts, Avoids longFiles longRoot a.path := by
    intro a ha
    obtain rfl := List.mem_singleton.mp ha
    exact longFiles_avoids _ (by decide +kernel)
  have hlauncher := longFiles_avoids longInputs.launcher (by decide +kernel)
  have hmanifest := longFiles_avoids longInputs.manifest (by decide +kernel)
  obtain ⟨d, w', h⟩ := longFiles_assemble
  refine ⟨hup, longFiles_artifact, hlibraries, hlauncher, hmanifest, atPath_longFiles, by decide, d,
    w', h, ?_⟩
  obtain ⟨_, _, home, c, hassembled⟩ := assemble_spec ((Path.up_notMem_steps_iff _).mp hup)
    (fun a ha => isEntryName_of_atPath (longFiles_artifact a ha)) (.inl (List.cons_ne_nil _ _)) h
  intro report w'' hcheck
  obtain ⟨m, hm', hlong⟩ := not_isTooLong_of_check hcheck
  cases hm'.symm.trans (hassembled.atPath_manifest (source_of_avoids hmanifest) atPath_longFiles)
  exact absurd (hlong _ List.mem_cons_self) (by decide +kernel)

end Distribution

end LaunchDist
