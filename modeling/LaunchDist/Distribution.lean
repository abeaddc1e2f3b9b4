import LaunchDist.Manifest.File
/-!
# Distributions

A distribution holds the launcher, under the name of the program, and the manifest in `bin/`, and
the artifacts in `lib/`. To assemble it, both directories are made anew, and the manifest comes
last. It is checked as its launcher would see it: the manifest must be valid, each class path entry
must lead from `bin/` to a file, and `bin/` must hold one thing besides the manifest.
-/
namespace LaunchDist

/-- What is merged into a distribution. -/
structure AssemblyInputs where
  programName : String
  launcher : Path
  manifest : Path
  /-- The artifact of the program and its dependencies, in class path order. -/
  artifacts : List Artifact
  deriving DecidableEq, Repr

/-- The paths of an assembled distribution. -/
structure Distribution where
  root : Path
  launcher : Path
  manifest : Path
  libraries : List Path
  deriving DecidableEq, Repr

/-- What a consistent distribution holds. -/
structure DistributionReport where
  launcherName : String
  entrypoint : String
  javaVersion : UInt32
  classpath : List String
  deriving DecidableEq, Repr

namespace Distribution

def binDirOf (root : Path) : Path :=
  root / "bin"

def libDirOf (root : Path) : Path :=
  root / "lib"

def binDir (d : Distribution) : Path :=
  binDirOf d.root

def libDir (d : Distribution) : Path :=
  libDirOf d.root

/-- The distribution that the inputs make at a root. -/
def planned (root : Path) (inputs : AssemblyInputs) : Distribution where
  root := root
  launcher := binDirOf root / inputs.programName
  manifest := binDirOf root / Manifest.fileName
  libraries := inputs.artifacts.map fun a => libDirOf root / a.fileName

/-- Fails unless the manifest lists exactly the artifacts, in order. -/
def checkClasspath (manifest : Path) (artifacts : List Artifact) : Action Unit := do
  let m ← Manifest.load manifest
  let expected := artifacts.map Artifact.classpathEntry
  if m.classpath = expected then return ()
  else throw (.invalidManifest (.otherClasspath manifest m.classpath expected))

/-- Copies artifacts into a directory, in order; of those that share a name the last one stays. -/
def copyLibraries (libDir : Path) : List Artifact → Action Unit
  | [] => return ()
  | a :: rest => do
    Action.copyFile a.path (libDir / a.fileName)
    copyLibraries libDir rest

/-- Assembles a distribution at a root. Nothing is changed if the program name or the manifest does
not fit. -/
def assemble (root : Path) (inputs : AssemblyInputs) : Action Distribution := do
  Action.ofExcept (ProgramName.validate inputs.programName)
  checkClasspath inputs.manifest inputs.artifacts
  Action.resetDir (libDirOf root)
  Action.resetDir (binDirOf root)
  let _ ← Artifact.warnOfShared inputs.artifacts
  let made := planned root inputs
  copyLibraries (libDirOf root) inputs.artifacts
  Action.copyFile inputs.launcher made.launcher
  Action.copyFile inputs.manifest made.manifest
  Action.report (.assembled root inputs.programName made.libraries.length)
  return made

/-- Fails for the first of the two directories that is missing. -/
def requireDirs (fs : FileSystem) (root : Path) : Except Failure Unit :=
  match [binDirOf root, libDirOf root].find? (!fs.isDir ·) with
  | some dir => .error (.invalidDistribution root (.missingDirectory dir))
  | none => .ok ()

/-- Fails for the first class path entry that leads to no file. -/
def requireLibraries (fs : FileSystem) (root : Path) (classpath : List String) :
    Except Failure Unit :=
  match classpath.find? fun entry => !fs.isFile (binDirOf root / entry) with
  | some entry => .error (.invalidDistribution root (.missingLibrary entry))
  | none => .ok ()

/-- The names in `bin/` other than that of the manifest. -/
def otherNames (names : List Name) : List String :=
  (names.map Utf8.decodeLossy).filter (· ≠ Manifest.fileName)

/-- The launcher's name, which must be the only other one in `bin/`. -/
def soleLauncher (fs : FileSystem) (root : Path) : Except Failure String :=
  match fs.list (binDirOf root) with
  | .error failure => .error (.io (binDirOf root) failure)
  | .ok names => match otherNames names with
    | [name] => .ok name
    | [] => .error (.invalidDistribution root .noLauncher)
    | others =>
      .error (.invalidDistribution root (.severalLaunchers (others.mergeSort (· ≤ ·))))

/-- What a state holds at a root, given the manifest that was read there. -/
def inspect (fs : FileSystem) (root : Path) (m : Manifest) : Except Failure DistributionReport := do
  m.validate
  requireLibraries fs root m.classpath
  let launcherName ← soleLauncher fs root
  return ⟨launcherName, m.entrypoint, m.javaVersion, m.classpath⟩

/-- Checks the distribution at a root. -/
def check (root : Path) : Action DistributionReport := do
  Action.query (requireDirs · root)
  let m ← Manifest.load (binDirOf root / Manifest.fileName)
  Action.query (inspect · root m)

end Distribution

end LaunchDist
