import LaunchDist.Proofs.Distribution.Abort
/-!
# Inputs that do not fit

The program name is judged first, then the manifest is read, then its class path is compared with the
artifacts. Inputs that do not fit are refused for the first thing that is wrong with them, before
anything is changed. What fails later fails at a path.
-/
namespace LaunchDist

theorem ProgramName.validate_error {name : String} {failure : Failure}
    (h : ProgramName.validate name = .error failure) : ∃ problem, failure = .configuration problem := by
  unfold ProgramName.validate at h
  dsimp only at h
  split_ifs at h
  all_goals
    obtain rfl := Except.error.inj h
    exact ⟨_, rfl⟩

namespace Distribution

section Refused

variable {root : Path} {inputs : AssemblyInputs} {w w' : Workspace} {failure : Failure}

theorem assemble_of_invalid_name (h : ProgramName.validate inputs.programName = .error failure) :
    assemble root inputs w = .error failure w :=
  Action.bind_error_iff.mpr (.inl (Action.ofExcept_error_iff.mpr ⟨h, rfl⟩))

theorem assemble_of_checkClasspath (hname : ProgramName.validate inputs.programName = .ok ())
    (h : checkClasspath inputs.manifest inputs.artifacts w = .error failure w') :
    assemble root inputs w = .error failure w' := by
  rw [assemble, Action.bind_of_ok (Action.ofExcept_ok_iff.mpr ⟨hname, rfl⟩)]
  exact Action.bind_error_iff.mpr (.inl h)

theorem checkClasspath_of_unread {manifest : Path} {artifacts : List Artifact}
    (h : Manifest.atPath w.files manifest = .error failure) :
    checkClasspath manifest artifacts w = .error failure w :=
  Action.bind_error_iff.mpr (.inl (Action.bind_error_iff.mpr
    (.inl (Action.query_error_iff.mpr ⟨h, rfl⟩))))

theorem checkClasspath_of_stale {manifest : Path} {artifacts : List Artifact} {m : Manifest}
    (hm : Manifest.atPath w.files manifest = .ok m)
    (hne : m.classpath ≠ artifacts.map Artifact.classpathEntry) :
    checkClasspath manifest artifacts w =
      .error (.invalidManifest (.otherClasspath manifest m.classpath
          (artifacts.map Artifact.classpathEntry)))
        { w with log := w.log ++ [.readManifest manifest] } := by
  rw [checkClasspath, Action.bind_of_ok (Manifest.load_ok_iff.mpr ⟨hm, rfl⟩)]
  exact congrFun (if_neg hne) _

theorem install_failsAtPaths (root : Path) (inputs : AssemblyInputs) :
    Action.FailsAtPaths (install root inputs) := by
  have hlibraries : ∀ artifacts, Action.FailsAtPaths (copyLibraries (libDirOf root) artifacts) := by
    intro artifacts
    induction artifacts with
    | nil => exact .of_never fun _ _ _ => Action.pure_ne_error
    | cons a rest ih => exact .bind (.copyFile _ _) fun _ => ih
  exact .bind (.changeAt _ _) fun _ => .bind (.changeAt _ _) fun _ =>
    .bind (.of_never fun _ _ _ => warnOfShared_ne_error) fun _ =>
    .bind (hlibraries _) fun _ => .bind (.copyFile _ _) fun _ => .bind (.copyFile _ _) fun _ =>
    .bind (.of_never fun _ _ _ => Action.report_ne_error) fun _ =>
    .of_never fun _ _ _ => Action.pure_ne_error

/-- An assembly fails for its program name or its manifest, with the files left alone, or at a path. -/
theorem assemble_error (h : assemble root inputs w = .error failure w') :
    (∃ p e, failure = .io p e) ∨ w'.files = w.files ∧
      (ProgramName.validate inputs.programName = .error failure ∨
        Manifest.atPath w.files inputs.manifest = .error failure ∨
        ∃ m, Manifest.atPath w.files inputs.manifest = .ok m ∧
          m.classpath ≠ inputs.artifacts.map Artifact.classpathEntry) := by
  rw [assemble, Action.bind_error_iff] at h
  rcases h with hname | ⟨_, w1, hname, h⟩
  · obtain ⟨hinvalid, rfl⟩ := Action.ofExcept_error_iff.mp hname
    exact .inr ⟨rfl, .inl hinvalid⟩
  obtain ⟨_, rfl⟩ := Action.ofExcept_ok_iff.mp hname
  rcases Action.bind_error_iff.mp h with hcheck | ⟨_, w2, _, h⟩
  · exact .inr ((checkClasspath_error hcheck).imp_right .inr)
  · exact .inl (install_failsAtPaths root inputs _ _ _ h)

end Refused

/-- Inputs are refused for a program name that may not be given, else for a manifest that cannot be read
or holds none, else for a class path that is not that of the artifacts. Nothing is changed then, nor by
any other failure that is not one at a path. -/
theorem assemble_of_unfit (root : Path) (inputs : AssemblyInputs) (w : Workspace) :
    (∀ failure, ProgramName.validate inputs.programName = .error failure →
      (∃ problem, failure = .configuration problem) ∧ assemble root inputs w = .error failure w) ∧
    (ProgramName.validate inputs.programName = .ok () →
      (∀ e, w.files.readText inputs.manifest = .error e →
        assemble root inputs w = .error (.io inputs.manifest e) w) ∧
      ∀ text, w.files.readText inputs.manifest = .ok text →
        (∀ fault, Manifest.parse text = .error fault →
          assemble root inputs w = .error (.manifestParse inputs.manifest fault) w) ∧
        ∀ m, Manifest.parse text = .ok m →
          m.classpath ≠ inputs.artifacts.map Artifact.classpathEntry →
          ∃ w', w'.files = w.files ∧ assemble root inputs w =
            .error (.invalidManifest (.otherClasspath inputs.manifest m.classpath
              (inputs.artifacts.map Artifact.classpathEntry))) w') ∧
    ∀ failure w', assemble root inputs w = .error failure w' →
      (∃ p e, failure = .io p e) ∨ w'.files = w.files ∧
        (ProgramName.validate inputs.programName = .error failure ∨
          Manifest.atPath w.files inputs.manifest = .error failure ∨
          ∃ m, Manifest.atPath w.files inputs.manifest = .ok m ∧
            m.classpath ≠ inputs.artifacts.map Artifact.classpathEntry) := by
  refine ⟨fun failure h => ⟨ProgramName.validate_error h, assemble_of_invalid_name h⟩, fun hname => ?_,
    fun failure w' h => assemble_error h⟩
  refine ⟨fun e hread => ?_, fun text hread => ⟨fun fault hparse => ?_, fun m hparse hne => ?_⟩⟩
  · refine assemble_of_checkClasspath hname (checkClasspath_of_unread ?_)
    rw [Manifest.atPath, hread]
  · refine assemble_of_checkClasspath hname (checkClasspath_of_unread ?_)
    rw [Manifest.atPath_of_readText hread, hparse]
    rfl
  · refine ⟨_, ?_, assemble_of_checkClasspath hname (checkClasspath_of_stale ?_ hne)⟩
    · rfl
    rw [Manifest.atPath_of_readText hread, hparse]
    rfl

/-- The inputs of a distribution with its libraries in another order than the manifest has them. -/
def reorderedInputs : AssemblyInputs :=
  { strandedInputs with artifacts := strandedInputs.artifacts.reverse }

theorem assemble_of_unfit_reorderedInputs :
    ProgramName.validate reorderedInputs.programName = .ok () ∧
      strandedFiles.readText reorderedInputs.manifest = .ok strandedManifest.render ∧
      Manifest.parse strandedManifest.render = .ok strandedManifest ∧
      strandedManifest.classpath ≠ reorderedInputs.artifacts.map Artifact.classpathEntry ∧
      ∃ w', w'.files = strandedFiles ∧
        assemble (Path.ofString "dist") reorderedInputs ⟨strandedFiles, []⟩ =
          .error (.invalidManifest (.otherClasspath (Path.ofString "m.json")
            ["../lib/a.jar", "../lib/b.jar"] ["../lib/b.jar", "../lib/a.jar"])) w' := by
  have hname : ProgramName.validate reorderedInputs.programName = .ok () := by decide
  have hread : strandedFiles.readText reorderedInputs.manifest = .ok strandedManifest.render :=
    FileSystem.readText_ok_iff.mpr ⟨[Utf8.encode "m.json"], 0o644, _, rfl, Utf8.decode?_encode _⟩
  have hparse := Manifest.parse_render strandedManifest
  have hne : strandedManifest.classpath ≠ reorderedInputs.artifacts.map Artifact.classpathEntry := by
    decide
  exact ⟨hname, hread, hparse, hne, (((assemble_of_unfit (Path.ofString "dist") reorderedInputs
    ⟨strandedFiles, []⟩).2.1 hname).2 _ hread).2 _ hparse hne⟩

end Distribution

end LaunchDist
