import LaunchDist.Failure
import LaunchDist.FileSystem.Operations
/-!
# Actions on a workspace

An action reads and changes the files and reports events worth a log line; it ends with a value or a
failure, and in both cases with the state it has reached.
-/
namespace LaunchDist

inductive Level where
  | error
  | warn
  | info
  | debug
  | trace
  deriving DecidableEq, Repr

inductive Event where
  | copiedFile (source dest : Path)
  | resolvedArtifact (fileName : String) (path : Path)
  | sharedFileName (fileName : String)
  | generatedManifest (path : Path) (entries : Nat)
  | readManifest (path : Path)
  | foundLauncher (path : Path)
  | stagedLauncher (source dest : Path)
  | packaging (program entrypoint : String) (dependencies : Nat)
  | assembled (root : Path) (program : String) (libraries : Nat)
  deriving DecidableEq, Repr

namespace Level

def rank : Level → Nat
  | .error => 1
  | .warn => 2
  | .info => 3
  | .debug => 4
  | .trace => 5

/-- The name in a column of five. -/
def column : Level → String
  | .error => "ERROR"
  | .warn => " WARN"
  | .info => " INFO"
  | .debug => "DEBUG"
  | .trace => "TRACE"

end Level

namespace Event

def level : Event → Level
  | .copiedFile .. | .resolvedArtifact .. | .readManifest .. | .foundLauncher .. => .debug
  | .generatedManifest .. | .stagedLauncher .. | .packaging .. | .assembled .. => .info
  | .sharedFileName .. => .warn

/-- The part of the program that reports the event. -/
def topic : Event → String
  | .copiedFile .. => "distpack::fsops"
  | .resolvedArtifact .. | .sharedFileName .. => "distpack::artifact"
  | .generatedManifest .. | .readManifest .. => "distpack::manifest"
  | .foundLauncher .. | .stagedLauncher .. => "distpack::launcher"
  | .packaging .. => "distpack::packaging"
  | .assembled .. => "distpack::distribution"

def text : Event → String
  | .copiedFile source dest => "copied file from=" ++ source.display ++ " to=" ++ dest.display
  | .resolvedArtifact fileName path =>
    "resolved runtime artifact artifact=" ++ fileName ++ " path=" ++ path.display
  | .sharedFileName fileName =>
    "several runtime artifacts share a file name; the last one copied wins artifact=" ++ fileName
  | .generatedManifest path entries =>
    "generated manifest path=" ++ path.display ++ " entries=" ++ toString entries
  | .readManifest path => "read manifest path=" ++ path.display
  | .foundLauncher path => "found launcher path=" ++ path.display
  | .stagedLauncher source dest =>
    "staged launcher from=" ++ source.display ++ " to=" ++ dest.display
  | .packaging program entrypoint dependencies =>
    "packaging application program=" ++ program ++ " entrypoint=" ++ Text.quote entrypoint ++
      " dependencies=" ++ toString dependencies
  | .assembled root program libraries =>
    "assembled distribution root=" ++ root.display ++ " program=" ++ Text.quote program ++
      " libraries=" ++ toString libraries

/-- The log line that shows the event. -/
def line (e : Event) : String :=
  e.level.column ++ " " ++ e.topic ++ ": " ++ e.text ++ "\n"

end Event

/-- The files that packaging works on, with the events reported so far. -/
structure Workspace where
  files : FileSystem
  log : List Event := []

abbrev Action := EStateM Failure Workspace

namespace Action

def report (e : Event) : Action Unit :=
  modify fun w => { w with log := w.log ++ [e] }

def ofExcept {α : Type} : Except Failure α → Action α
  | .ok value => pure value
  | .error failure => throw failure

/-- An answer about the files, which changes nothing. -/
def query {α : Type} (question : FileSystem → Except Failure α) : Action α := do
  ofExcept (question (← get).files)

/-- A change of the files, whose failure is one at a path. -/
def changeAt (p : Path) (change : FileSystem.Change Unit) : Action Unit := fun w =>
  match change w.files with
  | .ok () files => .ok () { w with files }
  | .error failure files => .error (.io p failure) { w with files }

/-- Makes sure that the path names an empty directory. -/
def resetDir (p : Path) : Action Unit :=
  changeAt p (FileSystem.resetDir p)

/-- Copies the content and the permission bits of a regular file. -/
def copyFile (source dest : Path) : Action Unit := do
  let files ← query fun fs => (fs.copyFile source dest).mapError fun (p, failure) => .io p failure
  modify fun w => { w with files }
  report (.copiedFile source dest)

end Action

end LaunchDist
