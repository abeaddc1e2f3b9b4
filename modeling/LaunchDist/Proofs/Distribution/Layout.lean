import LaunchDist.Proofs.Distribution.Assembly
import LaunchDist.Proofs.FileSystem.Listing
/-!
# The tree of a distribution

What can be seen of an assembled distribution by the paths below its root.
-/
namespace LaunchDist

namespace Distribution

open FileSystem
open LaunchDist.Path (Step IsEntryName)

namespace Building

variable {before fs : FileSystem} {root : Path} {home : Location} {c : Contents} {part s : String}
  {e : DirEntry}

theorem find_part (h : Building before fs root home c) (hs : IsEntryName (Utf8.encode part))
    (hd : IsPart (Utf8.encode part)) (hn : Nameable (root / part)) :
    fs.find .follow (root / part) = .ok (some (home ++ [Utf8.encode part]), .dir) :=
  find_follow_iff.mpr ⟨hn, h.reaches_part hs hd, h.dir _ hd⟩

theorem isDir_part (h : Building before fs root home c) (hs : IsEntryName (Utf8.encode part))
    (hd : IsPart (Utf8.encode part)) (hn : Nameable (root / part)) : fs.isDir (root / part) := by
  rw [isDir, stat_of_find (h.find_part hs hd hn)]

theorem list_part (h : Building before fs root home c) (hs : IsEntryName (Utf8.encode part))
    (hd : IsPart (Utf8.encode part)) (hn : Nameable (root / part)) :
    ∃ names, fs.list (root / part) = .ok names ∧ names.Nodup ∧
      ∀ n, n ∈ names ↔ c (Utf8.encode part) n ≠ none := by
  refine ⟨fs.namesAt (home ++ [Utf8.encode part]), ?_, nodup_namesAt .., fun n => ?_⟩
  · rw [list, h.find_part hs hd hn]
  · rw [mem_namesAt_iff, h.contents _ hd]

theorem inspect_part (h : Building before fs root home c) (hs : IsEntryName (Utf8.encode part))
    (hd : IsPart (Utf8.encode part)) (hn : Nameable (root / part)) :
    fs.inspect (root / part) = .ok .dir := by
  obtain ⟨_, hr⟩ := h.reaches
  exact inspect_dir_entry hs hr (h.dir _ hd) (h.isDir_part hs hd hn)

theorem find_file (h : Building before fs root home c) (hp : IsEntryName (Utf8.encode part))
    (hd : IsPart (Utf8.encode part)) (hs : EntryPath (root / part) s)
    (hc : c (Utf8.encode part) (Utf8.encode s) = some e) :
    fs.find .follow (root / part / s) =
        .ok (some (home ++ [Utf8.encode part] ++ [Utf8.encode s]), e) ∧
      fs.inspect (root / part / s) = .ok e := by
  obtain ⟨k, hr⟩ := h.reaches_part hp hd
  have hv := h.isDirAt hd
  have he : fs.entry? (home ++ [Utf8.encode part] ++ [Utf8.encode s]) = some e := by
    rw [h.contents _ hd, hc]
  have hne : fs.entry? (home ++ [Utf8.encode part] ++ [Utf8.encode s]) ≠ none := by
    rw [he]
    exact Option.some_ne_none _
  constructor
  · refine find_follow_iff.mpr ⟨hs.nameable, ⟨k, ?_⟩, he⟩
    exact (reaches_entry_iff hs.isEntryName).mpr ⟨k, _, hr, hv,
      .enter hv hs.length_le hne (h.linkAt?_contents hd _) (.done _ _)⟩
  · have hloc := (locate_entry_iff (.inl rfl) hs.isEntryName).mpr
      ⟨hs.nameable, hs.length_le, k, _, hr, hv, rfl⟩
    rw [if_neg hne] at hloc
    rw [FileSystem.inspect, find, hloc]
    simp only [he]
    rfl

end Building

/-- Whether a path neither leads through one of the two directories of a root nor ends in one. -/
def Avoids (fs : FileSystem) (root p : Path) : Prop :=
  ∀ u ∈ fs.trail p, ¬ Inside fs root u

instance (fs : FileSystem) (root p : Path) : Decidable (Avoids fs root p) :=
  inferInstanceAs (Decidable (∀ u ∈ _, ¬ _))

theorem source_of_avoids {fs : FileSystem} {root p : Path} (h : Avoids fs root p) :
    Source fs root p where
  links u hu hin := absurd hin (h u hu)
  start := by
    cases ha : p.isAbsolute with
    | true => exact .inl rfl
    | false => exact .inr (.inl (h _ (workingDir_mem_trail ha)))
  place hin := absurd hin (h _ (destination_mem_trail fs p))

/-- The two directories of a distribution, and the files in them, as they are assembled from the files
that there were before. -/
structure HoldsTree (before fs : FileSystem) (root : Path) (inputs : AssemblyInputs) : Prop where
  libDir : fs.inspect (libDirOf root) = .ok .dir
  binDir : fs.inspect (binDirOf root) = .ok .dir
  libNames : ∃ names, fs.list (libDirOf root) = .ok names ∧ names.Nodup ∧
    ∀ n, n ∈ names ↔ ∃ a ∈ inputs.artifacts, Utf8.encode a.fileName = n
  binNames : ∃ names, fs.list (binDirOf root) = .ok names ∧ names.Nodup ∧
    ∀ n, n ∈ names ↔ n = Utf8.encode inputs.programName ∨ n = Utf8.encode Manifest.fileName
  program_ne : inputs.programName ≠ Manifest.fileName
  /-- Of the artifacts that share a name the last one is installed. -/
  library : ∀ pre a post, inputs.artifacts = pre ++ a :: post →
    (∀ b ∈ post, b.fileName ≠ a.fileName) →
    ∃ mode content, Held before a.path (.file mode content) ∧
      fs.inspect (libDirOf root / a.fileName) = .ok (.file mode content)
  launcher : ∃ mode content, Held before inputs.launcher (.file mode content) ∧
    fs.inspect (binDirOf root / inputs.programName) = .ok (.file mode content)
  manifest : ∃ mode content, Held before inputs.manifest (.file mode content) ∧
    fs.inspect (binDirOf root / Manifest.fileName) = .ok (.file mode content)

theorem Assembled.binNames {before fs : FileSystem} {root : Path} {inputs : AssemblyInputs}
    {home : Location} {c : Contents} (h : Assembled before fs root inputs home c) :
    ∃ names, fs.list (binDirOf root) = .ok names ∧ names.Nodup ∧
      ∀ n, n ∈ names ↔ n = Utf8.encode inputs.programName ∨ n = Utf8.encode Manifest.fileName := by
  obtain ⟨names, hlist, hnodup, hmem⟩ :=
    h.building.list_part isEntryName_bin (.inr rfl) h.nameable_bin
  refine ⟨names, hlist, hnodup, fun n => ?_⟩
  rw [hmem]
  refine ⟨h.bin n, ?_⟩
  obtain ⟨_, _, hl⟩ := h.launcher
  obtain ⟨_, _, hm⟩ := h.manifest
  rintro (rfl | rfl)
  · exact fun hn => Option.some_ne_none _ (hl.symm.trans hn)
  · exact fun hn => Option.some_ne_none _ (hm.symm.trans hn)

theorem Assembled.lib_ne_none_iff {before fs : FileSystem} {root : Path} {inputs : AssemblyInputs}
    {home : Location} {c : Contents} (h : Assembled before fs root inputs home c) (n : Name) :
    c libName n ≠ none ↔ ∃ a ∈ inputs.artifacts, Utf8.encode a.fileName = n := by
  constructor
  · intro hne
    by_contra hno
    exact hne (h.libraries.other n fun a ha han => hno ⟨a, ha, han⟩)
  · rintro ⟨a, ha, rfl⟩
    exact h.libraries.ne_none a ha

theorem Assembled.holdsTree {before fs : FileSystem} {root : Path} {inputs : AssemblyInputs}
    {home : Location} {c : Contents} (h : Assembled before fs root inputs home c)
    (hlibraries : ∀ a ∈ inputs.artifacts, Source before root a.path)
    (hlauncher : Source before root inputs.launcher)
    (hmanifest : Source before root inputs.manifest) : HoldsTree before fs root inputs where
  libDir := h.building.inspect_part isEntryName_lib (.inl rfl) h.nameable_lib
  binDir := h.building.inspect_part isEntryName_bin (.inr rfl) h.nameable_bin
  libNames := by
    obtain ⟨names, hlist, hnodup, hmem⟩ :=
      h.building.list_part isEntryName_lib (.inl rfl) h.nameable_lib
    exact ⟨names, hlist, hnodup, fun n => (hmem n).trans (h.lib_ne_none_iff n)⟩
  binNames := h.binNames
  program_ne := h.program_ne
  library pre a post hsplit hlast := by
    obtain ⟨_, ⟨⟨mode, content, rfl⟩, hheld⟩, hc⟩ := h.libraries.last pre a post hsplit hlast
    have ha : a ∈ inputs.artifacts := by rw [hsplit]; simp
    exact ⟨mode, content, hheld (hlibraries a ha), (h.building.find_file isEntryName_lib (.inl rfl)
      (h.libraries.entryPath a ha) hc).2⟩
  launcher := by
    obtain ⟨_, ⟨⟨mode, content, rfl⟩, hheld⟩, hc⟩ := h.launcher
    exact ⟨mode, content, hheld hlauncher,
      (h.building.find_file isEntryName_bin (.inr rfl) h.launcherPath hc).2⟩
  manifest := by
    obtain ⟨_, ⟨⟨mode, content, rfl⟩, hheld⟩, hc⟩ := h.manifest
    exact ⟨mode, content, hheld hmanifest,
      (h.building.find_file isEntryName_bin (.inr rfl) h.manifestPath hc).2⟩

/-- Whatever the root held before, assembling leaves just the files that the inputs name in its two
directories. There must be an artifact, or the way to the root must not lead through its own `bin`. -/
theorem assemble_holdsTree (root : Path) (inputs : AssemblyInputs) (w w' : Workspace)
    (d : Distribution) (hup : Step.up ∉ root.steps)
    (hartifacts : ∀ a ∈ inputs.artifacts, ∃ fs p, Artifact.atPath fs p = .ok a)
    (hlibraries : ∀ a ∈ inputs.artifacts, Avoids w.files root a.path)
    (hlauncher : Avoids w.files root inputs.launcher)
    (hmanifest : Avoids w.files root inputs.manifest)
    (hroot : inputs.artifacts ≠ [] ∨
      ∀ u ∈ w.files.trail root, ¬ w.files.place root binName <+: u)
    (h : assemble root inputs w = .ok d w') :
    HoldsTree w.files w'.files root inputs ∧ d.root = root ∧
      d.libraries = inputs.artifacts.map fun a => libDirOf root / a.fileName := by
  obtain ⟨rfl, _, home, c, hassembled⟩ := assemble_spec ((Path.up_notMem_steps_iff _).mp hup)
    (isEntryName_of_artifacts hartifacts) hroot h
  exact ⟨hassembled.holdsTree (fun a ha => source_of_avoids (hlibraries a ha))
    (source_of_avoids hlauncher) (source_of_avoids hmanifest), rfl, rfl⟩

theorem exists_assemble {root : Path} {inputs : AssemblyInputs} {w : Workspace} {m : Manifest}
    (hname : ProgramName.validate inputs.programName = .ok ())
    (hm : Manifest.atPath w.files inputs.manifest = .ok m)
    (hclasspath : m.classpath = inputs.artifacts.map Artifact.classpathEntry)
    (h : Action.succeeds (install root inputs
      { w with log := w.log ++ [.readManifest inputs.manifest] }) = true) :
    ∃ d w', assemble root inputs w = .ok d w' := by
  obtain ⟨d, w', hinstall⟩ := Action.exists_of_succeeds h
  exact ⟨d, w', assemble_ok_iff.mpr ⟨hname, ⟨m, hm, hclasspath⟩, hinstall⟩⟩

def looseManifest : Manifest :=
  ⟨"java", "Main", 21, ["../lib/a.jar"]⟩

/-- A library, a launcher and a manifest side by side, and what is left of an old distribution. -/
def looseFiles : FileSystem where
  children := [
    (Utf8.encode "a.jar", .file 0o644 (Utf8.encode "library")),
    (Utf8.encode "run", .file 0o755 (Utf8.encode "launcher")),
    (Utf8.encode "m.json", .file 0o600 (Utf8.encode looseManifest.render)),
    (Utf8.encode "dist", .dir [
      (Utf8.encode "lib", .dir [(Utf8.encode "old.jar", .link (Path.ofString "../../a.jar"))]),
      (Utf8.encode "bin", .file 0o644 [])])]
  workingDir := []

def looseInputs : AssemblyInputs where
  programName := "app"
  launcher := Path.ofString "run"
  manifest := Path.ofString "m.json"
  artifacts := [⟨"a.jar", Path.ofString "/a.jar"⟩]

theorem atPath_looseFiles : Manifest.atPath looseFiles looseInputs.manifest = .ok looseManifest := by
  have hf : looseFiles.find .follow looseInputs.manifest =
      .ok (some [Utf8.encode "m.json"], .file 0o600 (Utf8.encode looseManifest.render)) := by rfl
  exact Manifest.atPath_of_find hf

theorem assemble_looseFiles :
    ∃ d w', assemble (Path.ofString "dist") looseInputs ⟨looseFiles, []⟩ = .ok d w' :=
  exists_assemble (by decide) atPath_looseFiles (by decide) (by decide +kernel)

theorem assemble_holdsTree_looseFiles :
    ∃ d w', assemble (Path.ofString "dist") looseInputs ⟨looseFiles, []⟩ = .ok d w' ∧
      HoldsTree looseFiles w'.files (Path.ofString "dist") looseInputs ∧
      d.root = Path.ofString "dist" ∧ d.libraries =
        looseInputs.artifacts.map fun a => libDirOf (Path.ofString "dist") / a.fileName := by
  obtain ⟨d, w', h⟩ := assemble_looseFiles
  refine ⟨d, w', h, assemble_holdsTree _ _ ⟨looseFiles, []⟩ w' d (by decide +kernel) ?_
    (by decide +kernel) (by decide +kernel) (by decide +kernel) (.inl (by decide +kernel)) h⟩
  intro a ha
  obtain rfl := List.mem_singleton.mp ha
  exact ⟨looseFiles, Path.ofString "a.jar", by decide +kernel⟩

def loopingManifest : Manifest :=
  ⟨"java", "Main", 21, []⟩

/-- A launcher and a manifest without libraries, and a root that leads through its own `bin`. -/
def loopingFiles : FileSystem where
  children := [
    (Utf8.encode "launcher", .file 0o755 (Utf8.encode "run")),
    (Utf8.encode "m.json", .file 0o644 (Utf8.encode loopingManifest.render)),
    (Utf8.encode "dist", .dir [(Utf8.encode "bin", .link (Path.ofString "."))])]
  workingDir := []

def loopingInputs : AssemblyInputs where
  programName := "app"
  launcher := Path.ofString "launcher"
  manifest := Path.ofString "m.json"
  artifacts := []

/-- Without artifacts, a root that leads through its own `bin` is left without `lib`. -/
theorem assemble_loopingFiles_without_lib :
    Step.up ∉ (Path.ofString "dist/bin").steps ∧
    Avoids loopingFiles (Path.ofString "dist/bin") loopingInputs.launcher ∧
    Avoids loopingFiles (Path.ofString "dist/bin") loopingInputs.manifest ∧
    ∃ d w', assemble (Path.ofString "dist/bin") loopingInputs ⟨loopingFiles, []⟩ = .ok d w' ∧
      w'.files.isDir (libDirOf (Path.ofString "dist/bin")) = false ∧
      ¬ HoldsTree loopingFiles w'.files (Path.ofString "dist/bin") loopingInputs := by
  refine ⟨by decide +kernel, by decide +kernel, by decide +kernel, ?_⟩
  have hf : loopingFiles.find .follow loopingInputs.manifest =
      .ok (some [Utf8.encode "m.json"], .file 0o644 (Utf8.encode loopingManifest.render)) := by rfl
  have hrun : (match install (Path.ofString "dist/bin") loopingInputs
        ⟨loopingFiles, [.readManifest loopingInputs.manifest]⟩ with
      | .ok _ w' => decide (w'.files.isDir (libDirOf (Path.ofString "dist/bin")) = false ∧
        w'.files.inspect (libDirOf (Path.ofString "dist/bin")) ≠ .ok .dir)
      | .error _ _ => false) = true := by decide +kernel
  cases h : install (Path.ofString "dist/bin") loopingInputs
      ⟨loopingFiles, [.readManifest loopingInputs.manifest]⟩ with
  | ok d w' =>
    rw [h] at hrun
    obtain ⟨hdir, hinspect⟩ := of_decide_eq_true hrun
    exact ⟨d, w', assemble_ok_iff.mpr ⟨by decide, ⟨_, Manifest.atPath_of_find hf, rfl⟩, h⟩, hdir,
      fun htree => hinspect htree.libDir⟩
  | error e w' =>
    rw [h] at hrun
    cases hrun

end Distribution

end LaunchDist
