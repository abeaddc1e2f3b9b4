import LaunchDist.Command.Run
import LaunchDist.Proofs.Artifact
/-!
# Commands that are refused

The commands that make a manifest settle everything that is asked of their arguments before they write
anything: what is unfit about them ends the command with the files as they were.
-/
namespace LaunchDist

open LaunchDist.Action

section FailingAs

variable {α : Type} {x : Action α} {f : Failure → CommandFailure} {w w' : Workspace}

theorem failingAs_ok_iff {a : α} : x.failingAs f w = .ok a w' ↔ x w = .ok a w' := by
  rw [Action.failingAs]
  cases x w with
  | ok b w1 =>
    constructor
    · intro h
      cases h
      rfl
    · intro h
      cases h
      rfl
  | error failure w1 =>
    constructor
    · intro h
      cases h
    · intro h
      cases h

theorem failingAs_of_error {failure : Failure} (h : x w = .error failure w') :
    x.failingAs f w = .error (f failure) w' := by
  rw [Action.failingAs, h]

end FailingAs

namespace Command

variable {env : Environment} {options : ProgramOptions} {w : Workspace} {fs : FileSystem}

/-- Whether an action of a command fails with the files as they are. -/
def Refused {α : Type} (x : CommandAction α) (w : Workspace) : Prop :=
  ∃ failure w', x w = .error failure w' ∧ w'.files = w.files

namespace Refused

variable {α β : Type} {x : CommandAction α} {f : α → CommandAction β} {w' : Workspace}

theorem bind (h : Refused x w) : Refused (x >>= f) w := by
  obtain ⟨failure, w', hx, hfiles⟩ := h
  exact ⟨failure, w', bind_error_iff.mpr (.inl hx), hfiles⟩

theorem bind_of_ok {a : α} (hx : x w = .ok a w') (hfiles : w'.files = w.files)
    (h : Refused (f a) w') : Refused (x >>= f) w := by
  obtain ⟨failure, w'', hf, hfiles'⟩ := h
  exact ⟨failure, w'', bind_error_iff.mpr (.inr ⟨a, w', hx, hf⟩), hfiles'.trans hfiles⟩

theorem failingAs {action : Action α} {failure : Failure} {toFailure : Failure → CommandFailure}
    (h : action w = .error failure w') (hfiles : w'.files = w.files) :
    Refused (action.failingAs toFailure) w :=
  ⟨toFailure failure, w', failingAs_of_error h, hfiles⟩

end Refused

/-- What a manifest is made from, as the arguments of a command and the files tell it. -/
structure Settled (fs : FileSystem) (options : ProgramOptions) (mainClass : MainClass)
    (program : Artifact) (dependencies : List Artifact) : Prop where
  mainClass : MainClass.ofString options.mainClass = .ok mainClass
  program : Artifact.atPath fs options.jar = .ok program
  dependencies : (options.classpath.flatMap Path.splitList).mapM (Artifact.atPath fs) = .ok dependencies

theorem resolveProgram_cases (options : ProgramOptions) (w : Workspace) :
    Refused (resolveProgram options) w ∨
      ∃ program dependencies w', resolveProgram options w = .ok (program, dependencies) w' ∧
        w'.files = w.files ∧ Artifact.atPath w.files options.jar = .ok program ∧
        (options.classpath.flatMap Path.splitList).mapM (Artifact.atPath w.files) =
          .ok dependencies := by
  cases hjar : Artifact.atPath w.files options.jar with
  | error failure =>
    exact .inl (.bind (.failingAs (query_error_iff.mpr ⟨hjar, rfl⟩) rfl))
  | ok program =>
    have hprogram : (Artifact.resolve options.jar).failingAs (.during (.resolvingJar options.jar)) w =
        .ok program w := failingAs_ok_iff.mpr (query_ok_iff.mpr ⟨hjar, rfl⟩)
    obtain ⟨hout, hfiles⟩ :=
      Artifact.resolveAll_spec (options.classpath.flatMap Path.splitList) w
    rw [← Artifact.resolveClasspath_eq] at hout hfiles
    cases hall : Artifact.resolveClasspath options.classpath w with
    | error failure w' =>
      rw [hall] at hfiles
      exact .inl (.bind_of_ok hprogram rfl (.bind (.failingAs hall hfiles)))
    | ok dependencies w' =>
      rw [hall] at hout hfiles
      exact .inr ⟨program, dependencies, w',
        (Action.bind_of_ok hprogram).trans (Action.bind_of_ok (failingAs_ok_iff.mpr hall)),
        hfiles, rfl, hout.symm⟩

/-- How both commands that make a manifest begin: they settle what it is made from. -/
def settleThen (options : ProgramOptions)
    (rest : MainClass → Artifact × List Artifact → CommandAction Finished) :
    CommandAction Finished := do
  let mainClass ← (Action.ofExcept (MainClass.ofString options.mainClass)).failingAs .plain
  rest mainClass (← resolveProgram options)

/-- Nothing is changed until it is settled what a manifest is made from. -/
theorem settleThen_cases (options : ProgramOptions)
    (rest : MainClass → Artifact × List Artifact → CommandAction Finished) (w : Workspace) :
    Refused (settleThen options rest) w ∨ ∃ mainClass program dependencies w',
      Settled w.files options mainClass program dependencies ∧ w'.files = w.files ∧
        settleThen options rest w = rest mainClass (program, dependencies) w' := by
  cases hmain : MainClass.ofString options.mainClass with
  | error failure =>
    exact .inl (.bind (.failingAs (ofExcept_error_iff.mpr ⟨hmain, rfl⟩) rfl))
  | ok mainClass =>
    have hfirst : (Action.ofExcept (MainClass.ofString options.mainClass)).failingAs .plain w =
        .ok mainClass w := failingAs_ok_iff.mpr (ofExcept_ok_iff.mpr ⟨hmain, rfl⟩)
    rcases resolveProgram_cases options w with
      hrefused | ⟨program, dependencies, w', hok, hfiles, hprogram, hdependencies⟩
    · exact .inl (.bind_of_ok hfirst rfl hrefused.bind)
    · exact .inr ⟨mainClass, program, dependencies, w', ⟨hmain, hprogram, hdependencies⟩, hfiles,
        (Action.bind_of_ok hfirst).trans (Action.bind_of_ok hok)⟩

/-- Where a program is installed. -/
def distDirOf (name : String) (options : ProgramOptions) (distDir : Option Path) : Path :=
  distDir.getD (BuildLayout.defaultDistDir ⟨options.buildDir⟩ name)

/-- The request for a program whose artifacts are known. -/
def requestOf (name : String) (options : ProgramOptions) (distDir : Option Path)
    (mainClass : MainClass) (artifacts : Artifact × List Artifact) : PackagingRequest where
  programName := name
  mainClass := mainClass
  program := artifacts.1
  dependencies := artifacts.2
  buildDir := options.buildDir
  distDir := distDirOf name options distDir

/-- The rest of packaging once it is settled what the manifest is made from. -/
def packageSettled (env : Environment) (name : String) (options : ProgramOptions)
    (distDir : Option Path) (mainClass : MainClass) (artifacts : Artifact × List Artifact) :
    CommandAction Finished := do
  let request := requestOf name options distDir mainClass artifacts
  let made ← (request.package env.path).failingAs (.during .packaging)
  let paths := made.launcher :: made.manifest :: made.libraries
  return ⟨lines (("Distribution: " ++ made.root.display) :: paths.map ("  " ++ ·.display)), none⟩

/-- The rest of writing a manifest once it is settled what it is made from. -/
def manifestSettled (options : ProgramOptions) (mainClass : MainClass)
    (artifacts : Artifact × List Artifact) : CommandAction Finished := do
  let m := Manifest.generate mainClass (artifacts.1 :: artifacts.2)
  let path ← (m.store ⟨options.buildDir⟩).failingAs (.during .writingManifest)
  return ⟨lines [path.display], none⟩

theorem runPackage_eq (env : Environment) (name : String) (options : ProgramOptions)
    (distDir : Option Path) :
    runPackage env name options distDir =
      settleThen options (packageSettled env name options distDir) :=
  rfl

theorem runManifest_eq (options : ProgramOptions) :
    runManifest options = settleThen options (manifestSettled options) :=
  rfl

/-- What is unfit about a program that a manifest is to be made for: its main class is blank, or a file
of it cannot be put on the class path. -/
inductive UnfitProgram (fs : FileSystem) (options : ProgramOptions) : Prop where
  | mainClass (h : Text.trim options.mainClass = "")
  | jar (h : ¬ Artifact.Resolvable fs options.jar)
  | dependency {list entry : Bytes} (hlist : list ∈ options.classpath)
      (hentry : entry ∈ list.splitOn Path.listSeparator) (hne : entry ≠ [])
      (h : ¬ Artifact.Resolvable fs ⟨entry⟩)

/-- What is unfit about a command that makes a manifest. -/
def Unfit (fs : FileSystem) : Command → Prop
  | .package name options _ => UnfitProgram fs options ∨ ProgramName.validate name ≠ .ok ()
  | .manifest options => UnfitProgram fs options
  | _ => False

theorem Settled.not_unfit {mainClass : MainClass} {program : Artifact} {dependencies : List Artifact}
    (h : Settled fs options mainClass program dependencies) : ¬ UnfitProgram fs options := by
  rintro (hblank | hjar | ⟨hlist, hentry, hne, hno⟩)
  · have hmain := h.mainClass
    rw [MainClass.ofString, if_pos hblank] at hmain
    cases hmain
  · exact hjar (Artifact.resolvable_of_atPath h.program)
  · have hmem : (⟨_⟩ : Path) ∈ options.classpath.flatMap Path.splitList :=
      List.mem_flatMap.mpr ⟨_, hlist,
        List.mem_map_of_mem (List.mem_filter.mpr ⟨hentry, decide_eq_true hne⟩)⟩
    obtain ⟨a, ha⟩ := (Artifact.exists_of_forall₂ (Artifact.forall₂_of_mapM h.dependencies)).1 _ hmem
    exact hno (Artifact.resolvable_of_atPath ha)

theorem refused_packageSettled {name : String} {distDir : Option Path} {mainClass : MainClass}
    {artifacts : Artifact × List Artifact} (h : ProgramName.validate name ≠ .ok ()) :
    Refused (packageSettled env name options distDir mainClass artifacts) w := by
  cases hv : ProgramName.validate name with
  | ok u => exact absurd hv h
  | error failure =>
    have hpackage : (requestOf name options distDir mainClass artifacts).package env.path w =
        .error failure w := by
      rw [PackagingRequest.package, bind_error_iff]
      exact .inl (ofExcept_error_iff.mpr ⟨hv, rfl⟩)
    exact .bind (.failingAs hpackage rfl)

theorem refused_of_unfit {command : Command} (h : command.Unfit w.files) :
    Refused (command.perform env) w := by
  cases command with
  | package name options distDir =>
    change Refused (runPackage env name options distDir) w
    rw [runPackage_eq]
    rcases settleThen_cases options (packageSettled env name options distDir) w with
      hrefused | ⟨mainClass, program, dependencies, w', hsettled, hfiles, heq⟩
    · exact hrefused
    · have hrest : Refused
          (packageSettled env name options distDir mainClass (program, dependencies)) w' :=
        refused_packageSettled (h.resolve_left hsettled.not_unfit)
      obtain ⟨failure, w'', hfail, hfiles'⟩ := hrest
      exact ⟨failure, w'', heq.trans hfail, hfiles'.trans hfiles⟩
  | manifest options =>
    change Refused (runManifest options) w
    rw [runManifest_eq]
    rcases settleThen_cases options (manifestSettled options) w with
      hrefused | ⟨_, _, _, _, hsettled, _⟩
    · exact hrefused
    · exact absurd h hsettled.not_unfit
  | stageLauncher => exact h.elim
  | check => exact h.elim
  | doctor => exact h.elim

theorem run_of_refused {command : Command} {verbose : Bool}
    (h : Refused (command.perform env) ⟨fs, []⟩) :
    (command.run env verbose fs).1.code = 1 ∧ (command.run env verbose fs).1.output = "" ∧
      (command.run env verbose fs).2 = fs := by
  obtain ⟨failure, w', hfail, hfiles⟩ := h
  rw [run, hfail]
  exact ⟨rfl, rfl, hfiles⟩

end Command

/-- Whatever is unfit about what a manifest is to be made for, the program fails, prints nothing and
leaves the files as they were. -/
theorem runProgram_of_unfit (env : Environment) (arguments : List Bytes) (files : FileSystem)
    (verbose : Bool) (command : Command)
    (hparse : Arguments.parse arguments = some (.run verbose command))
    (hunfit : command.Unfit files) :
    (runProgram env arguments files).1.code = 1 ∧
      (runProgram env arguments files).1.output = "" ∧
      (runProgram env arguments files).2 = files := by
  rw [runProgram, hparse]
  exact Command.run_of_refused (Command.refused_of_unfit hunfit)

/-- A program with one of its two libraries. -/
def incompleteFiles : FileSystem where
  children := [
    (Utf8.encode "app.jar", .file 0o644 (Utf8.encode "program")),
    (Utf8.encode "a.jar", .file 0o644 (Utf8.encode "library"))]
  workingDir := []

def incompleteArguments : List Bytes :=
  ["package", "--name", "app", "--main-class", "Main", "--jar", "app.jar", "--classpath",
    "a.jar::b.jar"].map Utf8.encode

def incompleteOptions : ProgramOptions where
  mainClass := "Main"
  jar := Path.ofString "app.jar"
  classpath := [Utf8.encode "a.jar::b.jar"]
  buildDir := Path.ofString "build"

theorem runProgram_of_unfit_incompleteFiles :
    (runProgram {} incompleteArguments incompleteFiles).1.code = 1 ∧
      (runProgram {} incompleteArguments incompleteFiles).1.output = "" ∧
      (runProgram {} incompleteArguments incompleteFiles).2 = incompleteFiles := by
  have hno : ¬ Artifact.Resolvable incompleteFiles (Path.ofString "b.jar") := by
    rintro ⟨l, _, hl, _⟩
    have herror : (incompleteFiles.canonicalize (Path.ofString "b.jar")).toOption = none := by
      decide +kernel
    rw [hl] at herror
    cases herror
  exact runProgram_of_unfit {} incompleteArguments incompleteFiles false
    (.package "app" incompleteOptions none) (by decide +kernel)
    (.inl (.dependency (List.mem_singleton.mpr rfl) (by decide +kernel) (by decide +kernel) hno))

end LaunchDist
