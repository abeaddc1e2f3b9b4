import LaunchDist.Distribution
/-!
# Packaging a program

One run from a request to a distribution: the manifest is written, the launcher staged, the
distribution assembled. The launcher is the first regular file of its name in the directories of a
search path; it is staged as the only entry of the staging directory.
-/
namespace LaunchDist

structure LauncherSearch where
  name : String := launcherName
  /-- The search path as it was given, if one was. -/
  searchPath : Option Bytes
  deriving DecidableEq, Repr

namespace LauncherSearch

def dirs (search : LauncherSearch) : List Path :=
  (search.searchPath.map Path.splitList).getD []

/-- The paths at which a launcher is looked for, in order. -/
def candidates (search : LauncherSearch) : List Path :=
  search.dirs.map (· / search.name)

/-- The launcher in a state. -/
def findIn (search : LauncherSearch) (fs : FileSystem) : Except Failure Path :=
  match search.candidates.find? fs.isFile with
  | some path => .ok path
  | none => .error (.launcherNotFound search.name search.dirs)

def find (search : LauncherSearch) : Action Path := do
  let path ← Action.query search.findIn
  Action.report (.foundLauncher path)
  return path

/-- Copies the launcher into the emptied staging directory; the search comes after the emptying. -/
def stage (search : LauncherSearch) (layout : BuildLayout) : Action Path := do
  Action.resetDir layout.stagingDir
  let launcher ← search.find
  let staged := layout.stagingDir / search.name
  Action.copyFile launcher staged
  Action.report (.stagedLauncher launcher staged)
  return staged

end LauncherSearch

/-- What to package and where to put it. -/
structure PackagingRequest where
  programName : String
  mainClass : MainClass
  program : Artifact
  dependencies : List Artifact
  buildDir : Path
  distDir : Path
  /-- A search path for the launcher in place of that of the environment. -/
  searchPath : Option Bytes := none
  deriving DecidableEq, Repr

namespace PackagingRequest

/-- The artifact of the program followed by its dependencies. -/
def classpath (request : PackagingRequest) : List Artifact :=
  request.program :: request.dependencies

def layout (request : PackagingRequest) : BuildLayout :=
  ⟨request.buildDir⟩

def manifest (request : PackagingRequest) : Manifest :=
  Manifest.generate request.mainClass request.classpath

/-- The search for the launcher, given the search path of the environment. -/
def launcherSearch (request : PackagingRequest) (environmentPath : Option Bytes) :
    LauncherSearch where
  searchPath := request.searchPath <|> environmentPath

/-- Packages the program, given the search path of the environment. -/
def package (request : PackagingRequest) (environmentPath : Option Bytes) :
    Action Distribution := do
  Action.ofExcept (ProgramName.validate request.programName)
  Action.report
    (.packaging request.programName request.mainClass.name request.dependencies.length)
  let manifest ← request.manifest.store request.layout
  let launcher ← (request.launcherSearch environmentPath).stage request.layout
  Distribution.assemble request.distDir
    { programName := request.programName, launcher, manifest, artifacts := request.classpath }

end PackagingRequest

end LaunchDist
