import LaunchDist.Failure
/-!
# Names and places of a program

What a request must name before anything is packaged, its main class and its program name, and where
intermediate outputs lie below the build directory.
-/
namespace LaunchDist

/-- The class that starts a program. -/
structure MainClass where
  name : String
  deriving DecidableEq, Repr

/-- The main class given by a text, without the blanks around it. -/
def MainClass.ofString (s : String) : Except Failure MainClass :=
  if Text.trim s = "" then .error (.configuration .blankMainClass) else .ok ⟨Text.trim s⟩

namespace ProgramName

/-- Whether the path is a single name. -/
def isPlain (p : Path) : Bool :=
  match p.isAbsolute, p.components with
  | false, [.name _] => true
  | _, _ => false

/-- Whether a program may have the name, which is that of its launcher. -/
def validate (name : String) : Except Failure Unit :=
  let trimmed := Text.trim name
  if trimmed = "" then .error (.configuration .emptyProgramName)
  else if trimmed ≠ name then .error (.configuration (.blankEndedProgramName name))
  else if !isPlain (Path.ofString name) then .error (.configuration (.notPlainProgramName name))
  else if name = Manifest.fileName then .error (.configuration (.manifestProgramName name))
  else .ok ()

end ProgramName

/-- The name of the launcher executable as it is found on a search path. -/
def launcherName : String := "my-java-launcher"

/-- The build directory of a program, with the places of its intermediate outputs. -/
structure BuildLayout where
  buildDir : Path
  deriving DecidableEq, Repr

namespace BuildLayout

def root (layout : BuildLayout) : Path :=
  layout.buildDir / launcherName

def manifestDir (layout : BuildLayout) : Path :=
  layout.root / "manifest"

def manifestPath (layout : BuildLayout) : Path :=
  layout.manifestDir / Manifest.fileName

def stagingDir (layout : BuildLayout) : Path :=
  layout.root / "launcher"

def stagedLauncher (layout : BuildLayout) : Path :=
  layout.stagingDir / launcherName

/-- Where a program is installed if nothing else is asked for. -/
def defaultDistDir (layout : BuildLayout) (programName : String) : Path :=
  layout.buildDir / "install" / programName

end BuildLayout

end LaunchDist
