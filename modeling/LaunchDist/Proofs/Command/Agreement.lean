import LaunchDist.Proofs.Command.Refusal
import LaunchDist.Proofs.Distribution.Confined
import LaunchDist.Proofs.FileSystem.Copy
import LaunchDist.Proofs.Packaging
/-!
# Packaging and writing a manifest

The two commands that make a manifest make the same one. Packaging leaves it in both places, octet by
octet, if the way to the build directory follows no link inside the distribution.
-/
namespace LaunchDist

open FileSystem
open LaunchDist.Distribution
open LaunchDist.Path (Step IsEntryName)

namespace FileSystem

theorem read_of_find {fs : FileSystem} {p : Path} {l : Location} {mode : Mode} {content : Bytes}
    (h : fs.find .follow p = .ok (some l, .file mode content)) : fs.read p = .ok content := by
  rw [FileSystem.read, stat_of_find h]

end FileSystem

namespace PackagingRequest

variable {request : PackagingRequest} {environmentPath : Option Bytes} {w w' : Workspace}
  {d : Distribution}

/-- The manifest of the request is left as it has been written, both among the outputs of the build and
in the distribution. -/
theorem read_manifest_of_package
    (hnames : ∀ a ∈ request.classpath, IsEntryName (Utf8.encode a.fileName))
    (hbuild : Step.up ∉ request.buildDir.steps) (hdist : Step.up ∉ request.distDir.steps)
    (hlinks : request.layout.Unlinked w.files)
    (hway : ∀ u ∈ w.files.trail request.buildDir, Inside w.files request.distDir u →
      w.files.linkAt? u = none)
    (h : request.package environmentPath w = .ok d w') :
    w'.files.read request.layout.manifestPath = .ok (Utf8.encode request.manifest.render) ∧
      w'.files.read (binDirOf request.distDir / Manifest.fileName) =
        .ok (Utf8.encode request.manifest.render) := by
  obtain ⟨_, _, _, _, houtputs, hassemble, hassembled⟩ :=
    outputs_of_package hnames hbuild hdist hlinks hway h
  obtain ⟨_, ⟨m, hm, _⟩, hinstall⟩ := assemble_ok_iff.mp hassemble
  obtain ⟨_, _, _, _, _, _, _, _, _, hcopied⟩ := install_ok hinstall
  obtain ⟨_, mode, hf⟩ := houtputs.manifest
  constructor
  · -- What was there when assembling began is still there, since it has been copied last.
    obtain ⟨l, mode', content, hleft⟩ := find_source_of_copyFile hcopied
    obtain ⟨_, hheld⟩ := hassembled.building.held_of_source houtputs.manifestSource hleft
    cases hheld.2 _ (stat_of_find hf)
    exact read_of_find hleft
  · obtain ⟨e, hcopy, hc⟩ := hassembled.manifest
    obtain rfl := (hcopy.held houtputs.manifestSource).2 _ (stat_of_find hf)
    exact read_of_find
      (hassembled.building.find_file isEntryName_bin (.inr rfl) hassembled.manifestPath hc).1

end PackagingRequest

theorem up_notMem_defaultDistDir {layout : BuildLayout} {name : String}
    (hbuild : Step.up ∉ layout.buildDir.steps) (h : ProgramName.validate name = .ok ()) :
    Step.up ∉ (layout.defaultDistDir name).steps := by
  obtain ⟨_, hrel, n, rest, hsteps⟩ := steps_of_validate h
  have hname : Step.up ∉ (Path.ofString name).moves := by
    rw [← Path.up_notMem_steps_iff, hsteps, List.mem_cons, not_or]
    refine ⟨by simp, fun hup => ?_⟩
    rcases rest_of_validate h hsteps _ hup with heq | heq <;> cases heq
  have hinstall : Step.up ∉ (layout.buildDir / "install").moves := by
    rw [Path.up_notMem_moves_entry _ _ (by decide)]
    exact (Path.up_notMem_steps_iff _).mp hbuild
  have hjoin : (layout.defaultDistDir name).moves =
      (layout.buildDir / "install").moves ++ (Path.ofString name).moves :=
    Path.moves_join _ _ hrel
  rw [Path.up_notMem_steps_iff, hjoin, List.mem_append, not_or]
  exact ⟨hinstall, hname⟩

namespace Command

variable {env : Environment} {options : ProgramOptions} {w w' : Workspace} {fs : FileSystem}

theorem Settled.unique {mainClass mainClass' : MainClass} {program program' : Artifact}
    {dependencies dependencies' : List Artifact}
    (h : Settled fs options mainClass program dependencies)
    (h' : Settled fs options mainClass' program' dependencies') :
    mainClass = mainClass' ∧ program = program' ∧ dependencies = dependencies' :=
  ⟨Except.ok.inj (h.mainClass.symm.trans h'.mainClass),
    Except.ok.inj (h.program.symm.trans h'.program),
    Except.ok.inj (h.dependencies.symm.trans h'.dependencies)⟩

theorem Refused.not_ok {α : Type} {x : CommandAction α} {a : α} (h : Refused x w) :
    x w ≠ .ok a w' := by
  obtain ⟨failure, _, hx, _⟩ := h
  rw [hx]
  intro heq
  cases heq

theorem perform_of_code {command : Command} {verbose : Bool}
    (h : (command.run env verbose fs).1.code = 0) :
    ∃ finished w, command.perform env ⟨fs, []⟩ = .ok finished w ∧
      (command.run env verbose fs).2 = w.files := by
  rw [run] at h ⊢
  cases hperform : command.perform env ⟨fs, []⟩ with
  | error failure w =>
    rw [hperform] at h
    cases h
  | ok finished w =>
    refine ⟨finished, w, rfl, ?_⟩
    cases hfailure : finished.failure with
    | none => simp only [hfailure]
    | some failure => simp only [hfailure]

theorem read_of_runManifest {finished : Finished} (h : runManifest options w = .ok finished w') :
    ∃ mainClass program dependencies, Settled w.files options mainClass program dependencies ∧
      w'.files.read (BuildLayout.manifestPath ⟨options.buildDir⟩) =
        .ok (Utf8.encode (Manifest.generate mainClass (program :: dependencies)).render) := by
  rw [runManifest_eq] at h
  rcases settleThen_cases options (manifestSettled options) w with
    hrefused | ⟨mainClass, program, dependencies, w1, hsettled, _, heq⟩
  · exact absurd h hrefused.not_ok
  · rw [heq, manifestSettled, Action.bind_ok_iff] at h
    obtain ⟨path, w2, hstore, h⟩ := h
    obtain ⟨_, rfl⟩ := Action.pure_ok_iff.mp h
    obtain ⟨_, made, l, mode, _, ht, hfiles⟩ := Manifest.store_ok (failingAs_ok_iff.mp hstore)
    refine ⟨mainClass, program, dependencies, hsettled, ?_⟩
    rw [hfiles]
    exact read_of_find (find_put_target ht _ _)

theorem package_of_runPackage {name : String} {distDir : Option Path} {finished : Finished}
    (h : runPackage env name options distDir w = .ok finished w') :
    ∃ mainClass program dependencies w1 d,
      Settled w.files options mainClass program dependencies ∧ w1.files = w.files ∧
      (requestOf name options distDir mainClass (program, dependencies)).package env.path w1 =
        .ok d w' := by
  rw [runPackage_eq] at h
  rcases settleThen_cases options (packageSettled env name options distDir) w with
    hrefused | ⟨mainClass, program, dependencies, w1, hsettled, hfiles, heq⟩
  · exact absurd h hrefused.not_ok
  · rw [heq, packageSettled, Action.bind_ok_iff] at h
    obtain ⟨d, w2, hpackage, h⟩ := h
    obtain ⟨_, rfl⟩ := Action.pure_ok_iff.mp h
    exact ⟨mainClass, program, dependencies, w1, d, hsettled, hfiles, failingAs_ok_iff.mp hpackage⟩

theorem run_of_perform {command : Command} {verbose : Bool} {finished : Finished}
    (h : command.perform env ⟨fs, []⟩ = .ok finished w) (hfailure : finished.failure = none) :
    (command.run env verbose fs).1.code = 0 ∧ (command.run env verbose fs).2 = w.files := by
  rw [run, h]
  simp only [hfailure, and_self]

theorem resolveProgram_eq {artifacts : Artifact × List Artifact} {log : List Event}
    (h : (match resolveProgram options ⟨fs, []⟩ with
      | .ok found w => decide (found = artifacts ∧ w.log = log)
      | .error _ _ => false) = true) :
    resolveProgram options ⟨fs, []⟩ = .ok artifacts ⟨fs, log⟩ := by
  rcases resolveProgram_cases options ⟨fs, []⟩ with
    ⟨failure, w, hfail, _⟩ | ⟨program, dependencies, w, hok, hfiles, _⟩
  · rw [hfail] at h
    cases h
  · rw [hok] at h ⊢
    obtain ⟨rfl, hlog⟩ := of_decide_eq_true h
    obtain ⟨files, log'⟩ := w
    obtain rfl : files = fs := hfiles
    obtain rfl : log' = log := hlog
    rfl

theorem run_package_of_package {verbose : Bool} {name : String} {distDir : Option Path}
    {mainClass : MainClass} {artifacts : Artifact × List Artifact} {d : Distribution}
    (hmain : MainClass.ofString options.mainClass = .ok mainClass)
    (hresolve : resolveProgram options ⟨fs, []⟩ = .ok artifacts w)
    (h : (requestOf name options distDir mainClass artifacts).package env.path w = .ok d w') :
    (run env verbose (.package name options distDir) fs).1.code = 0 ∧
      (run env verbose (.package name options distDir) fs).2 = w'.files := by
  have hrest : ∃ finished, packageSettled env name options distDir mainClass artifacts w =
      .ok finished w' ∧ finished.failure = none :=
    ⟨_, Action.bind_of_ok (failingAs_ok_iff.mpr h), rfl⟩
  obtain ⟨finished, hfinished, hfailure⟩ := hrest
  have hfirst : (Action.ofExcept (MainClass.ofString options.mainClass)).failingAs .plain ⟨fs, []⟩ =
      .ok mainClass ⟨fs, []⟩ := failingAs_ok_iff.mpr (Action.ofExcept_ok_iff.mpr ⟨hmain, rfl⟩)
  have hperform : perform env (.package name options distDir) ⟨fs, []⟩ = .ok finished w' :=
    (Action.bind_of_ok hfirst).trans ((Action.bind_of_ok hresolve).trans hfinished)
  exact run_of_perform hperform hfailure

theorem runProgram_of_package {arguments : List Bytes} {verbose : Bool} {name : String}
    {distDir : Option Path} {mainClass : MainClass} {artifacts : Artifact × List Artifact}
    {d : Distribution}
    (hparse : Arguments.parse arguments = some (.run verbose (.package name options distDir)))
    (hmain : MainClass.ofString options.mainClass = .ok mainClass)
    (hresolve : resolveProgram options ⟨fs, []⟩ = .ok artifacts w)
    (h : (requestOf name options distDir mainClass artifacts).package env.path w = .ok d w') :
    (runProgram env arguments fs).1.code = 0 ∧ (runProgram env arguments fs).2 = w'.files := by
  rw [runProgram, hparse]
  exact run_package_of_package hmain hresolve h

end Command

/-- The manifest that one command writes is the one that the other leaves in both places, from the same
files and for the same program, if the way to the build directory follows no link inside the
distribution. -/
theorem package_agrees_with_manifest (env env' : Environment) (arguments arguments' : List Bytes)
    (verbose verbose' : Bool) (name : String) (options : ProgramOptions) (distDir : Option Path)
    (files : FileSystem)
    (hparse : Arguments.parse arguments = some (.run verbose (.manifest options)))
    (hparse' : Arguments.parse arguments' = some (.run verbose' (.package name options distDir)))
    (hbuild : Step.up ∉ options.buildDir.steps) (hdist : ∀ p, distDir = some p → Step.up ∉ p.steps)
    (hlinks : BuildLayout.Unlinked ⟨options.buildDir⟩ files)
    (hway : ∀ u ∈ files.trail options.buildDir, Inside files (Command.distDirOf name options distDir) u →
      files.linkAt? u = none)
    (hcode : (runProgram env arguments files).1.code = 0)
    (hcode' : (runProgram env' arguments' files).1.code = 0) :
    ∃ content,
      (runProgram env arguments files).2.read (BuildLayout.manifestPath ⟨options.buildDir⟩) =
        .ok content ∧
      (runProgram env' arguments' files).2.read (BuildLayout.manifestPath ⟨options.buildDir⟩) =
        .ok content ∧
      (runProgram env' arguments' files).2.read
        (binDirOf (Command.distDirOf name options distDir) / Manifest.fileName) = .ok content := by
  rw [runProgram, hparse] at hcode ⊢
  rw [runProgram, hparse'] at hcode' ⊢
  obtain ⟨_, w, hperform, hfiles⟩ := Command.perform_of_code hcode
  obtain ⟨_, w', hperform', hfiles'⟩ := Command.perform_of_code hcode'
  obtain ⟨mainClass, program, dependencies, hsettled, hread⟩ := Command.read_of_runManifest hperform
  obtain ⟨_, _, _, w1, d, hsettled', hfiles1, hpackage⟩ := Command.package_of_runPackage hperform'
  obtain ⟨rfl, rfl, rfl⟩ := hsettled.unique hsettled'
  have hvalid := (PackagingRequest.package_ok_iff.mp hpackage).1
  have hup : Step.up ∉ (Command.distDirOf name options distDir).steps := by
    cases distDir with
    | none => exact up_notMem_defaultDistDir hbuild hvalid
    | some p => exact hdist p rfl
  have hnames : ∀ a ∈ (Command.requestOf name options distDir mainClass (program,
      dependencies)).classpath, IsEntryName (Utf8.encode a.fileName) := by
    intro a ha
    rcases List.mem_cons.mp ha with rfl | ha
    · exact isEntryName_of_atPath hsettled.program
    · obtain ⟨_, hp⟩ :=
        (Artifact.exists_of_forall₂ (Artifact.forall₂_of_mapM hsettled.dependencies)).2 a ha
      exact isEntryName_of_atPath hp
  obtain ⟨hbuilt, hinstalled⟩ := PackagingRequest.read_manifest_of_package hnames hbuild hup
    (by rwa [hfiles1]) (by rwa [hfiles1]) hpackage
  rw [hfiles, hfiles']
  exact ⟨_, hread, hbuilt, hinstalled⟩

/-- Arguments for a program without dependencies. -/
def argumentsFor (command : String) (rest : List String) : List Bytes :=
  ([command, "--main-class", "Main", "--jar", "app.jar"] ++ rest).map Utf8.encode

def optionsIn (buildDir : String) : ProgramOptions where
  mainClass := "Main"
  jar := Path.ofString "app.jar"
  classpath := []
  buildDir := Path.ofString buildDir

/-- The request that the command makes of its arguments. -/
def requestIn (buildDir : String) (distDir : Option Path) : PackagingRequest :=
  Command.requestOf "app" (optionsIn buildDir) distDir ⟨"Main"⟩
    (⟨"app.jar", Path.ofString "/app.jar"⟩, [])

def pathEnvironment : Environment where
  path := some (Utf8.encode "path")

/-- What the command leaves if what it is asked for can be packaged. -/
theorem runProgram_of_produce {arguments : List Bytes} {buildDir : String} {distDir : Option Path}
    {fs : FileSystem} (P : FileSystem → Prop) [DecidablePred P]
    (hparse : Arguments.parse arguments =
      some (.run false (.package "app" (optionsIn buildDir) distDir)))
    (hresolve : (match Command.resolveProgram (optionsIn buildDir) ⟨fs, []⟩ with
      | .ok found w => decide (found = (⟨"app.jar", Path.ofString "/app.jar"⟩, []) ∧ w.log = [])
      | .error _ _ => false) = true)
    (hbuild : Step.up ∉ (optionsIn buildDir).buildDir.steps)
    (hlinks : (requestIn buildDir distDir).layout.Unlinked fs)
    (h : Action.endsIn (fun w => decide (P w.files)) ((requestIn buildDir distDir).produce
      pathEnvironment.path ((requestIn buildDir distDir).started ⟨fs, []⟩)) = true) :
    (runProgram pathEnvironment arguments fs).1.code = 0 ∧
      P (runProgram pathEnvironment arguments fs).2 := by
  obtain ⟨d, w, hproduce, htest⟩ := Action.exists_of_endsIn h
  have hname : ProgramName.validate "app" = .ok () := by decide
  have hmain : MainClass.ofString "Main" = .ok ⟨"Main"⟩ := by decide
  have hpackage : (requestIn buildDir distDir).package pathEnvironment.path ⟨fs, []⟩ = .ok d w :=
    PackagingRequest.package_of_produce hname hbuild hlinks hproduce
  obtain ⟨hcode, hfiles⟩ := Command.runProgram_of_package hparse hmain
    (Command.resolveProgram_eq hresolve) hpackage
  exact ⟨hcode, by rw [hfiles]; exact of_decide_eq_true htest⟩

theorem package_agrees_with_manifest_sampleFiles :
    let manifest := runProgram {} (argumentsFor "manifest" []) PackagingRequest.sampleFiles
    let package := runProgram pathEnvironment (argumentsFor "package" ["--name", "app"])
      PackagingRequest.sampleFiles
    ∃ content,
      manifest.2.read (BuildLayout.manifestPath ⟨Path.ofString "build"⟩) = .ok content ∧
      package.2.read (BuildLayout.manifestPath ⟨Path.ofString "build"⟩) = .ok content ∧
      package.2.read (binDirOf (Command.distDirOf "app" (optionsIn "build") none) /
        Manifest.fileName) = .ok content := by
  have hparse : Arguments.parse (argumentsFor "package" ["--name", "app"]) =
      some (.run false (.package "app" (optionsIn "build") none)) := by decide +kernel
  have hlinks : BuildLayout.Unlinked ⟨(optionsIn "build").buildDir⟩ PackagingRequest.sampleFiles :=
    BuildLayout.unlinked_of_entry?_home (by decide +kernel)
  have hrun := runProgram_of_produce (fun _ => True) hparse (by decide +kernel)
    (by decide +kernel) hlinks (by decide +kernel)
  exact package_agrees_with_manifest {} pathEnvironment (argumentsFor "manifest" [])
    (argumentsFor "package" ["--name", "app"]) false false "app" (optionsIn "build") none
    PackagingRequest.sampleFiles (by decide +kernel) hparse (by decide +kernel)
    (fun _ hp => by cases hp) hlinks (by decide +kernel) (by decide +kernel) hrun.1

def linkedManifestArguments : List Bytes :=
  argumentsFor "manifest" ["--build-dir", "s"]

def linkedPackageArguments : List Bytes :=
  argumentsFor "package" ["--name", "app", "--build-dir", "s", "--dist-dir", "d"]

/-- If the way to the build directory follows a link inside the distribution, packaging leaves another
manifest in both places. -/
theorem package_disagrees_linkedFiles :
    Arguments.parse linkedManifestArguments = some (.run false (.manifest (optionsIn "s"))) ∧
    Arguments.parse linkedPackageArguments =
      some (.run false (.package "app" (optionsIn "s") (some (Path.ofString "d")))) ∧
    Step.up ∉ (optionsIn "s").buildDir.steps ∧ Step.up ∉ (Path.ofString "d").steps ∧
    BuildLayout.Unlinked ⟨(optionsIn "s").buildDir⟩ PackagingRequest.linkedFiles ∧
    (runProgram {} linkedManifestArguments PackagingRequest.linkedFiles).1.code = 0 ∧
    (runProgram pathEnvironment linkedPackageArguments PackagingRequest.linkedFiles).1.code = 0 ∧
    (runProgram {} linkedManifestArguments PackagingRequest.linkedFiles).2.read
      (BuildLayout.manifestPath ⟨Path.ofString "s"⟩) ≠ .ok [] ∧
    (runProgram pathEnvironment linkedPackageArguments PackagingRequest.linkedFiles).2.read
      (BuildLayout.manifestPath ⟨Path.ofString "s"⟩) = .ok [] ∧
    (runProgram pathEnvironment linkedPackageArguments PackagingRequest.linkedFiles).2.read
      (binDirOf (Path.ofString "d") / Manifest.fileName) = .ok [] := by
  have hparse : Arguments.parse linkedPackageArguments =
      some (.run false (.package "app" (optionsIn "s") (some (Path.ofString "d")))) := by
    decide +kernel
  have hlinks : BuildLayout.Unlinked ⟨(optionsIn "s").buildDir⟩ PackagingRequest.linkedFiles :=
    BuildLayout.unlinked_of_entry?_home (by decide +kernel)
  obtain ⟨hcode, hreads⟩ := runProgram_of_produce
    (fun fs => fs.read (BuildLayout.manifestPath ⟨Path.ofString "s"⟩) = .ok [] ∧
      fs.read (binDirOf (Path.ofString "d") / Manifest.fileName) = .ok [])
    hparse (by decide +kernel) (by decide +kernel) hlinks (by decide +kernel)
  exact ⟨by decide +kernel, hparse, by decide +kernel, by decide +kernel, hlinks, by decide +kernel,
    hcode, by decide +kernel, hreads⟩

end LaunchDist
