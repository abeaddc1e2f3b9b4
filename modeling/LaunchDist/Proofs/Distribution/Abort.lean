import LaunchDist.Proofs.Distribution.Assembly
import LaunchDist.Proofs.Distribution.Refusal
import LaunchDist.Proofs.FileSystem.Progress
/-!
# What is left of a failed assembly

The manifest is the last file to be copied, into a `bin` that has been emptied. An assembly that stops
before that leaves a root without a manifest, or without one of the two directories.
-/
namespace LaunchDist

namespace Distribution

open FileSystem
open LaunchDist.Path (Step IsEntryName)

/-- What is left of an assembly that stops before anything is in `bin`. -/
def Opened (before fs : FileSystem) (root : Path) (home : Location) : Prop :=
  (∃ c, Building before fs root home c ∧ ∀ n, c binName n = none) ∨ WithoutLib fs root home

/-- What is left of an assembly that stops before the manifest is in `bin`. -/
def Unfinished (before fs : FileSystem) (root : Path) (home : Location) : Prop :=
  (∃ c, Building before fs root home c ∧ c binName (Utf8.encode Manifest.fileName) = none) ∨
    WithoutLib fs root home

section Stages

variable {before made fs fs' : FileSystem} {root source : Path} {first home : Location} {name : String}

theorem Opened.unfinished (h : Opened before fs root home) : Unfinished before fs root home := by
  rcases h with ⟨c, hb, hempty⟩ | h
  · exact .inl ⟨c, hb, hempty _⟩
  · exact .inr h

theorem opened_of_resets (hlib : Renewed before made root libName first)
    (hbin : Renewed made fs root binName home) : Opened before fs root home := by
  rcases building_of_resets hlib hbin with hb | ⟨_, hnone⟩
  · exact .inl ⟨_, hb, fun _ => rfl⟩
  · exact .inr (.of_none hbin.reaches hnone)

theorem Opened.copy_library (h : Opened before fs root home)
    (hname : IsEntryName (Utf8.encode name))
    (hcopy : fs.copyFile source (libDirOf root / name) = .ok fs') : Opened before fs' root home := by
  rcases h with ⟨c, hb, hempty⟩ | h
  · obtain ⟨e, _, _, _, _, hb'⟩ := hb.copy isEntryName_lib (.inl rfl) hname.isAbsolute hname.steps
      (.inr rfl) hcopy
    refine .inl ⟨_, hb', fun n => ?_⟩
    exact (Contents.install_of_dir_ne _ _ (Ne.symm libName_ne_binName)).trans (hempty n)
  · exact .inr (h.copy hcopy)

theorem Opened.copy_launcher (h : Opened before fs root home)
    (hvalid : ProgramName.validate name = .ok ())
    (hcopy : fs.copyFile source (binDirOf root / name) = .ok fs') :
    Unfinished before fs' root home := by
  rcases h with ⟨c, hb, hempty⟩ | h
  · obtain ⟨hne, habs, n, rest, hsteps⟩ := steps_of_validate hvalid
    obtain ⟨e, rfl, _, _, _, hb'⟩ := hb.copy isEntryName_bin (.inr rfl) habs hsteps
      (.inl (hempty n)) hcopy
    obtain ⟨rfl, _⟩ := Path.isEntryName_of_steps _ n habs hsteps
    have hother : Utf8.encode Manifest.fileName ≠ Utf8.encode name :=
      fun heq => hne (Utf8.encode_injective heq.symm)
    exact .inl ⟨_, hb', (Contents.install_of_name_ne _ _ hother).trans (hempty _)⟩
  · exact .inr (h.copy hcopy)

theorem Building.stat_ne_ok {c : Contents} (hb : Building before fs root home c) {part : String}
    (hp : IsEntryName (Utf8.encode part)) (hd : IsPart (Utf8.encode part))
    (hs : IsEntryName (Utf8.encode name)) (hc : c (Utf8.encode part) (Utf8.encode name) = none)
    (e : DirEntry) : fs.stat (root / part / name) ≠ .ok e := by
  intro hstat
  rw [stat] at hstat
  cases hf : fs.find .follow (root / part / name) with
  | error failure =>
    rw [hf] at hstat
    cases hstat
  | ok found =>
    obtain ⟨l?, e'⟩ := found
    obtain ⟨l, rfl, _⟩ := location_of_find (by decide) (Path.namesOf_entry_ne_nil (root / part) _ hs) hf
    obtain ⟨_, ⟨k, hr⟩, _⟩ := find_follow_iff.mp hf
    obtain ⟨_, v, hr, _, hl⟩ := (reaches_entry_iff hs).mp hr
    obtain ⟨k', hr'⟩ := hb.reaches_part hp hd
    obtain ⟨_, rfl⟩ := hr.unique hr'
    apply hl.entry?_name_ne_none
    rw [hb.contents _ hd, hc]

end Stages

section Refused

variable {before : FileSystem} {root : Path} {home : Location} {w w' : Workspace}

theorem check_of_unfinished (h : Unfinished before w.files root home) :
    ∃ failure w', check root w = .error failure w' := by
  rcases h with ⟨c, hb, hc⟩ | h
  · apply check_fails_of_no_manifest
    intro m hm
    obtain ⟨_, _, _, hstat, _⟩ := Manifest.atPath_ok_iff.mp hm
    exact hb.stat_ne_ok isEntryName_bin (.inr rfl) isEntryName_manifest hc _ hstat
  · exact check_fails_of_not_isDir (.inr h.not_isDir)

end Refused

section Run

variable {root : Path} {inputs : AssemblyInputs} {w w' : Workspace} {failure : Failure}

/-- What one copy keeps is kept by all of them, and by those made before one that fails. -/
theorem copyLibraries_keeps {I : FileSystem → Prop} {dir : Path} (artifacts : List Artifact)
    (hstep : ∀ a ∈ artifacts, ∀ fs fs', I fs →
      fs.copyFile a.path (dir / a.fileName) = .ok fs' → I fs')
    (h : I w.files) : I (Action.stateAfter (copyLibraries dir artifacts w)).files := by
  induction artifacts generalizing w with
  | nil => exact h
  | cons a rest ih =>
    have hrest : ∀ b ∈ rest, ∀ fs fs', I fs →
        fs.copyFile b.path (dir / b.fileName) = .ok fs' → I fs' :=
      fun b hb => hstep b (List.mem_cons_of_mem _ hb)
    rw [copyLibraries]
    cases hcopy : Action.copyFile a.path (dir / a.fileName) w with
    | ok u w1 =>
      rw [Action.bind_of_ok hcopy]
      obtain ⟨files, hfiles, rfl⟩ := Action.copyFile_ok hcopy
      exact ih hrest (hstep a List.mem_cons_self _ _ h hfiles)
    | error e w1 =>
      rw [Action.bind_error_iff.mpr (.inl hcopy)]
      rw [(Action.copyFile_error hcopy).1]
      exact h

theorem warnOfShared_ne_error {artifacts : List Artifact} :
    Artifact.warnOfShared artifacts w ≠ .error failure w' := by
  rw [Artifact.warnOfShared_eq]
  exact fun h => nomatch h

theorem assemble_eq_install (hname : ProgramName.validate inputs.programName = .ok ())
    (hm : ∃ m, Manifest.atPath w.files inputs.manifest = .ok m ∧
      m.classpath = inputs.artifacts.map Artifact.classpathEntry) :
    assemble root inputs w =
      install root inputs { w with log := w.log ++ [.readManifest inputs.manifest] } := by
  rw [assemble, Action.bind_of_ok (Action.ofExcept_ok_iff.mpr ⟨hname, rfl⟩),
    Action.bind_of_ok (checkClasspath_ok_iff (u := ()).mpr ⟨hm, rfl⟩)]
  rfl

theorem changeAt_resetDir_error {p : Path} (h : Action.resetDir p w = .error failure w') :
    ∃ e, FileSystem.resetDir p w.files = .error e w'.files := by
  obtain ⟨e, files, _, hreset, rfl⟩ := Action.changeAt_error h
  exact ⟨e, hreset⟩

/-- The stages at which an installation can stop. -/
theorem install_error (hup : Step.up ∉ root.moves)
    (hnames : ∀ a ∈ inputs.artifacts, IsEntryName (Utf8.encode a.fileName))
    (hvalid : ProgramName.validate inputs.programName = .ok ())
    (h : install root inputs w = .error failure w') :
    ¬ w'.files.isDir (binDirOf root) ∨ ¬ w'.files.isDir (libDirOf root) ∨
      ∃ home, Unfinished w.files w'.files root home := by
  rw [install] at h
  rcases Action.bind_error_iff.mp h with hlib | ⟨_, w1, hlib, h⟩
  · obtain ⟨e, hreset⟩ := changeAt_resetDir_error hlib
    exact .inr (.inl (not_isDir_of_resetDir isEntryName_lib hup hreset))
  rcases Action.bind_error_iff.mp h with hbin | ⟨_, w2, hbin, h⟩
  · obtain ⟨e, hreset⟩ := changeAt_resetDir_error hbin
    exact .inl (not_isDir_of_resetDir isEntryName_bin hup hreset)
  right
  right
  obtain ⟨_, first, hrlib⟩ := resetDir_spec isEntryName_lib hup (changeAt_resetDir_ok hlib)
  obtain ⟨_, home, hrbin⟩ := resetDir_spec isEntryName_bin hup (changeAt_resetDir_ok hbin)
  have hopened : Opened w.files w2.files root home := opened_of_resets hrlib hrbin
  refine ⟨home, ?_⟩
  rcases Action.bind_error_iff.mp h with hwarn | ⟨_, w3, hwarn, h⟩
  · exact absurd hwarn warnOfShared_ne_error
  rw [← warnOfShared_ok hwarn] at hopened
  have hkept := copyLibraries_keeps (I := fun fs => Opened w.files fs root home) inputs.artifacts
    (fun a ha fs fs' ho hcopy => ho.copy_library (hnames a ha) hcopy) hopened
  rcases Action.bind_error_iff.mp h with hlibraries | ⟨_, w4, hlibraries, h⟩
  · rw [hlibraries] at hkept
    exact Opened.unfinished hkept
  rw [hlibraries] at hkept
  rcases Action.bind_error_iff.mp h with hlauncher | ⟨_, w5, hlauncher, h⟩
  · rw [(Action.copyFile_error hlauncher).1]
    exact Opened.unfinished hkept
  obtain ⟨launched, hlaunched, rfl⟩ := Action.copyFile_ok hlauncher
  have hunfinished := Opened.copy_launcher hkept hvalid hlaunched
  rcases Action.bind_error_iff.mp h with hmanifest | ⟨_, w6, _, h⟩
  · rw [(Action.copyFile_error hmanifest).1]
    exact hunfinished
  -- Once the manifest is in place nothing can fail any more.
  rcases Action.bind_error_iff.mp h with hreport | ⟨_, w7, _, h⟩
  · exact absurd hreport Action.report_ne_error
  · exact absurd h Action.pure_ne_error

end Run

/-- Whatever stood at the root, and wherever an assembly of inputs that fit has stopped: what it leaves
is refused by the check. -/
theorem check_of_failed_assemble (root : Path) (inputs : AssemblyInputs) (w w' : Workspace)
    (failure : Failure) (hup : Step.up ∉ root.steps)
    (hartifacts : ∀ a ∈ inputs.artifacts, ∃ fs p, Artifact.atPath fs p = .ok a)
    (hname : ProgramName.validate inputs.programName = .ok ())
    (hmanifest : ∃ m, Manifest.atPath w.files inputs.manifest = .ok m ∧
      m.classpath = inputs.artifacts.map Artifact.classpathEntry)
    (h : assemble root inputs w = .error failure w') :
    ∃ failure' w'', check root w' = .error failure' w'' := by
  rw [assemble_eq_install hname hmanifest] at h
  rcases install_error ((Path.up_notMem_steps_iff _).mp hup) (isEntryName_of_artifacts hartifacts)
    hname h with hbin | hlib | ⟨home, hunfinished⟩
  · exact check_fails_of_not_isDir (.inl hbin)
  · exact check_fails_of_not_isDir (.inr hlib)
  · exact check_of_unfinished hunfinished

def strandedManifest : Manifest :=
  ⟨"java", "Main", 21, ["../lib/a.jar", "../lib/b.jar"]⟩

/-- A finished distribution, and the inputs of a new one but for a library that is gone. -/
def strandedFiles : FileSystem where
  children := [
    (Utf8.encode "a.jar", .file 0o644 (Utf8.encode "library")),
    (Utf8.encode "run", .file 0o755 (Utf8.encode "launcher")),
    (Utf8.encode "m.json", .file 0o644 (Utf8.encode strandedManifest.render)),
    (Utf8.encode "dist", .dir [
      (Utf8.encode "lib", .dir [
        (Utf8.encode "a.jar", .file 0o644 (Utf8.encode "library")),
        (Utf8.encode "b.jar", .file 0o644 (Utf8.encode "other"))]),
      (Utf8.encode "bin", .dir [
        (Utf8.encode "app", .file 0o755 (Utf8.encode "launcher")),
        (Utf8.encode Manifest.fileName,
          .file 0o644 (Utf8.encode strandedManifest.render))])])]
  workingDir := []

def strandedInputs : AssemblyInputs where
  programName := "app"
  launcher := Path.ofString "run"
  manifest := Path.ofString "m.json"
  artifacts := [⟨"a.jar", Path.ofString "/a.jar"⟩, ⟨"b.jar", Path.ofString "/b.jar"⟩]

/-- A distribution that was sound is refused once a new assembly has stopped at the second library. -/
theorem check_of_failed_assemble_strandedFiles :
    (∃ report w', check (Path.ofString "dist") ⟨strandedFiles, []⟩ = .ok report w') ∧
    ∃ failure w', assemble (Path.ofString "dist") strandedInputs ⟨strandedFiles, []⟩ =
        .error failure w' ∧
      ∃ failure' w'', check (Path.ofString "dist") w' = .error failure' w'' := by
  have hfound : strandedFiles.find .follow (binDirOf (Path.ofString "dist") / Manifest.fileName) =
      .ok (some [Utf8.encode "dist", binName, Utf8.encode Manifest.fileName],
        .file 0o644 (Utf8.encode strandedManifest.render)) := by rfl
  have hinstalled := Manifest.atPath_of_find hfound
  have hinspect : Distribution.inspect strandedFiles (Path.ofString "dist") strandedManifest =
      .ok ⟨"app", "Main", 21, strandedManifest.classpath⟩ := by decide +kernel
  have hsound := check_eq_inspect (w := ⟨strandedFiles, []⟩) (by decide +kernel) (by decide +kernel)
    hinstalled
  rw [hinspect] at hsound
  have hm : Manifest.atPath strandedFiles strandedInputs.manifest = .ok strandedManifest := by
    have hf : strandedFiles.find .follow strandedInputs.manifest =
        .ok (some [Utf8.encode "m.json"], .file 0o644 (Utf8.encode strandedManifest.render)) := by rfl
    exact Manifest.atPath_of_find hf
  have hfit : ∃ m, Manifest.atPath strandedFiles strandedInputs.manifest = .ok m ∧
      m.classpath = strandedInputs.artifacts.map Artifact.classpathEntry :=
    ⟨_, hm, by decide⟩
  obtain ⟨failure, w', hfail⟩ := Action.exists_of_not_succeeds
    (by decide +kernel : Action.succeeds (install (Path.ofString "dist") strandedInputs
      ⟨strandedFiles, [.readManifest strandedInputs.manifest]⟩) = false)
  have hname : ProgramName.validate strandedInputs.programName = .ok () := by decide
  have h : assemble (Path.ofString "dist") strandedInputs ⟨strandedFiles, []⟩ = .error failure w' :=
    (assemble_eq_install (w := ⟨strandedFiles, []⟩) hname hfit).trans hfail
  have hartifacts : ∀ a ∈ strandedInputs.artifacts, Artifact.atPath
      (strandedFiles.put [Utf8.encode "b.jar"] (.file 0o644 [])) a.path = .ok a := by decide +kernel
  have hrefused := check_of_failed_assemble (Path.ofString "dist") strandedInputs
    ⟨strandedFiles, []⟩ w' failure (by decide +kernel) (fun a ha => ⟨_, _, hartifacts a ha⟩) hname hfit h
  exact ⟨⟨_, _, hsound⟩, failure, w', h, hrefused⟩

end Distribution

end LaunchDist
