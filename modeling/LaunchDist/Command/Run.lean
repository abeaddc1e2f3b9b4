import LaunchDist.Command.Arguments
import LaunchDist.LogFilter
import LaunchDist.Packaging
/-!
# Running a command

A command works on a workspace and ends with what it prints and, if it failed, with why. The log and
the failure, with everything behind it, go to the error output.
-/
namespace LaunchDist

/-- What a command learns from the environment of the process. -/
structure Environment where
  /-- The search path for programs. -/
  path : Option Bytes := none
  /-- Where the target release of Java is installed. -/
  javaHome : Option Bytes := none
  /-- How much is to be logged. -/
  logSetting : Option Bytes := none
  /-- The directory that a tilde stands for on the search path. -/
  home : Path := Path.ofString "/root"

/-- What a command was about when it failed. -/
inductive Task where
  | resolvingJar (jar : Path)
  | resolvingClasspath
  | packaging
  | writingManifest
  | staging
  | checking (distDir : Path)
  deriving DecidableEq, Repr

inductive CommandFailure where
  | plain (failure : Failure)
  | during (task : Task) (failure : Failure)
  | launcherRequired
  deriving DecidableEq, Repr

/-- What a command prints, and why it failed although it has printed it. -/
structure Finished where
  output : String
  failure : Option CommandFailure := none
  deriving DecidableEq, Repr

/-- What a process leaves: its exit code and its outputs. The complaint about unfit arguments is not
worded here. -/
structure Exit where
  code : Nat
  output : String
  errors : Option String
  deriving DecidableEq, Repr

def Task.message : Task → String
  | .resolvingJar jar => "Failed to resolve program jar " ++ jar.display
  | .resolvingClasspath => "Failed to resolve runtime classpath"
  | .packaging => "Failed to package application"
  | .writingManifest => "Failed to write manifest"
  | .staging => "Failed to stage launcher"
  | .checking distDir => "Distribution check failed for " ++ distDir.display

/-- The failure and what lies behind it, the outermost first. -/
def CommandFailure.chain : CommandFailure → List String
  | .plain failure => failure.message :: failure.source?.toList
  | .during task failure => task.message :: failure.message :: failure.source?.toList
  | .launcherRequired => [launcherName ++ " is required but not found in PATH"]

def CommandFailure.report (failure : CommandFailure) : String :=
  match failure.chain with
  | [] => ""
  | outermost :: behind =>
    "Error: " ++ outermost ++ "\n" ++
      String.join (behind.map fun cause => "Caused by: " ++ cause ++ "\n")

/-- Actions whose failures are those of a command. -/
abbrev CommandAction := EStateM CommandFailure Workspace

/-- An action whose failure is told in other words. -/
def Action.failingAs {α : Type} (action : Action α) (toFailure : Failure → CommandFailure) :
    CommandAction α := fun w =>
  match action w with
  | .ok value w => .ok value w
  | .error failure w => .error (toFailure failure) w

namespace Command

def lines (texts : List String) : String :=
  String.join (texts.map (· ++ "\n"))

/-- The program's own artifact and its dependencies. -/
def resolveProgram (options : ProgramOptions) : CommandAction (Artifact × List Artifact) := do
  let program ← (Artifact.resolve options.jar).failingAs (.during (.resolvingJar options.jar))
  let dependencies ←
    (Artifact.resolveClasspath options.classpath).failingAs (.during .resolvingClasspath)
  return (program, dependencies)

def runPackage (env : Environment) (name : String) (options : ProgramOptions)
    (distDir : Option Path) : CommandAction Finished := do
  let mainClass ← (Action.ofExcept (MainClass.ofString options.mainClass)).failingAs .plain
  let (program, dependencies) ← resolveProgram options
  let request : PackagingRequest := {
    programName := name
    mainClass, program, dependencies
    buildDir := options.buildDir
    distDir := distDir.getD (BuildLayout.defaultDistDir ⟨options.buildDir⟩ name) }
  let made ← (request.package env.path).failingAs (.during .packaging)
  let paths := made.launcher :: made.manifest :: made.libraries
  return ⟨lines (("Distribution: " ++ made.root.display) :: paths.map ("  " ++ ·.display)), none⟩

def runManifest (options : ProgramOptions) : CommandAction Finished := do
  let mainClass ← (Action.ofExcept (MainClass.ofString options.mainClass)).failingAs .plain
  let (program, dependencies) ← resolveProgram options
  let m := Manifest.generate mainClass (program :: dependencies)
  let path ← (m.store ⟨options.buildDir⟩).failingAs (.during .writingManifest)
  return ⟨lines [path.display], none⟩

def runStageLauncher (env : Environment) (buildDir : Path) : CommandAction Finished := do
  let search : LauncherSearch := { searchPath := env.path }
  let path ← (search.stage ⟨buildDir⟩).failingAs (.during .staging)
  return ⟨lines [path.display], none⟩

def runCheck (distDir : Path) : CommandAction Finished := do
  let report ← (Distribution.check distDir).failingAs (.during (.checking distDir))
  return ⟨lines
    ["✓ Distribution is consistent: " ++ distDir.display,
      "  launcher:   bin/" ++ report.launcherName,
      "  entrypoint: " ++ report.entrypoint,
      "  java:       " ++ toString report.javaVersion,
      "  classpath:  " ++ toString report.classpath.length ++ " entries"], none⟩

/-- A search path entry, with the home directory for a tilde that stands first. -/
def expandHome (home dir : Path) : Path :=
  match dir.isAbsolute, dir.components with
  | false, .name n :: rest =>
    if n = Utf8.encode "~" then
      if rest = [] then home else home.join (Path.ofComponents false rest)
    else dir
  | _, _ => dir

/-- The program of a name that a shell would run. Here empty entries of the search path count, as the
working directory. -/
def which (env : Environment) (fs : FileSystem) (name : String) : Option Path :=
  let entries := (env.path.map fun list => list.splitOn Path.listSeparator).getD []
  (entries.map fun dir => expandHome env.home ⟨dir⟩ / name).find? fs.isProgram

def javaLine (env : Environment) (fs : FileSystem) : String :=
  match which env fs "java" with
  | some path => "✓ java found at: " ++ path.display
  | none => "- java not found on PATH (optional)"

def javaHomeLine (env : Environment) (fs : FileSystem) : String :=
  let release := toString Manifest.targetRelease
  let name := "JAVA_" ++ release ++ "_HOME"
  match env.javaHome with
  | none =>
    "- " ++ name ++ " is not set; the launcher needs it to start Java " ++ release ++
      " programs"
  | some home =>
    let java := Path.mk home / "bin" / "java"
    if fs.isFile java then "✓ " ++ name ++ " points to " ++ Path.display ⟨home⟩
    else "✗ " ++ name ++ " is set but " ++ java.display ++ " does not exist"

/-- Reports on what packaging needs; only the launcher is indispensable. -/
def runDoctor (env : Environment) : CommandAction Finished := fun w =>
  let search : LauncherSearch := { searchPath := env.path }
  let heading := "distpack doctor - Checking system requirements...\n"
  let others := [javaLine env w.files, javaHomeLine env w.files]
  match search.find w with
  | .ok path w =>
    .ok ⟨lines (heading :: ("✓ " ++ launcherName ++ " found at: " ++ path.display) :: others ++
      ["\n✓ distpack doctor check complete"]), none⟩ w
  | .error failure w =>
    .ok ⟨lines (heading :: ("✗ " ++ failure.message) :: others), some .launcherRequired⟩ w

def perform (env : Environment) : Command → CommandAction Finished
  | .package name program distDir => runPackage env name program distDir
  | .manifest program => runManifest program
  | .stageLauncher buildDir => runStageLauncher env buildDir
  | .check distDir => runCheck distDir
  | .doctor => runDoctor env

/-- What is shown of the log: as the environment says, if that has a meaning, else more or less
verbose. -/
def logRules (env : Environment) (verbose : Bool) : List LogRule :=
  ((env.logSetting.bind Utf8.decode?).bind LogRule.listOf?).getD
    [LogRule.forAll (some (if verbose then .debug else .info))]

/-- Runs a command on files: how the process ends, and the files it leaves. -/
def run (env : Environment) (verbose : Bool) (command : Command) (files : FileSystem) :
    Exit × FileSystem :=
  let (finished, w) : Finished × Workspace := match command.perform env { files } with
    | .ok finished w => (finished, w)
    | .error failure w => (⟨"", some failure⟩, w)
  let shown := w.log.filter fun e => e.isShown (logRules env verbose)
  let log := String.join (shown.map Event.line)
  match finished.failure with
  | none => (⟨0, finished.output, some log⟩, w.files)
  | some failure => (⟨1, finished.output, some (log ++ failure.report)⟩, w.files)

end Command

def usage : String :=
  "Packages a JVM application into a launcher-driven distribution\n\n" ++
    "Usage: distpack [-v] <" ++ "|".intercalate (Arguments.commands.map (·.1)) ++ "> [OPTIONS]\n"

/-- Runs the program with its arguments. -/
def runProgram (env : Environment) (arguments : List Bytes) (files : FileSystem) :
    Exit × FileSystem :=
  match Arguments.parse arguments with
  | none => (⟨2, "", none⟩, files)
  | some .version => (⟨0, "distpack 0.1.0\n", some ""⟩, files)
  | some .help => (⟨0, usage, some ""⟩, files)
  | some (.run verbose command) => command.run env verbose files

end LaunchDist
