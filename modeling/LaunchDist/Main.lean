import LaunchDist.Command.Run
/-!
# The program

The files that a command may look at are loaded, the command runs on them, and what it has changed is
stored. Permission bits cannot be read here: what lies on the search path counts as executable, and
other files have the bits of new ones.
-/
namespace LaunchDist

/-- A place to load before a command runs. -/
structure Place where
  path : Path
  /-- Whether all that lies below is needed. -/
  isTree : Bool := false
  mode : Mode := FileSystem.newFileMode

namespace Place

def ofProgram (options : ProgramOptions) : List Place :=
  (options.jar :: options.classpath.flatMap Path.splitList).map fun path => { path }

def ofBuildDir (buildDir : Path) : Place where
  path := BuildLayout.root ⟨buildDir⟩
  isTree := true

def ofDistDir (distDir : Path) : List Place :=
  [{ path := Distribution.binDirOf distDir, isTree := true },
    { path := Distribution.libDirOf distDir, isTree := true }]

/-- Where a program of a name may be found on the search path. -/
def ofSearch (env : Environment) (name : String) : List Place :=
  let entries := (env.path.map fun list => list.splitOn Path.listSeparator).getD []
  entries.map fun dir => { path := Command.expandHome env.home ⟨dir⟩ / name, mode := 0o755 }

def ofCommand (env : Environment) : Command → List Place
  | .package name program distDir =>
    ofBuildDir program.buildDir ::
      ofDistDir (distDir.getD (BuildLayout.defaultDistDir ⟨program.buildDir⟩ name)) ++
      ofProgram program ++ ofSearch env launcherName
  | .manifest program => ofBuildDir program.buildDir :: ofProgram program
  | .stageLauncher buildDir => ofBuildDir buildDir :: ofSearch env launcherName
  | .check distDir => ofDistDir distDir
  | .doctor =>
    let home := env.javaHome.map fun home => { path := Path.mk home / "bin" / "java" }
    home.toList ++ ofSearch env launcherName ++ ofSearch env "java"

end Place

namespace Disk

/-- How deep a tree may be. -/
def maxDepth : Nat := 2048

def text (l : Location) : String :=
  l.path.display

def locationOf (path : String) : Location :=
  (Path.ofString path).components.filterMap fun
    | .name n => some n
    | _ => none

/-- The node at a location, with all below it if that is asked for. -/
def loadNode (mode : Mode) (isTree : Bool) : Nat → Location → IO (Option Node)
  | 0, _ => return none
  | depth + 1, l => do
    let path := (← IO.currentDir) / text l
    let type? ← try pure (some (← path.symlinkMetadata).type) catch _ => pure none
    match type? with
    | some .file => return some (.file mode (← IO.FS.readBinFile path).toList)
    | some .symlink => return some (.link (Path.ofString (← IO.FS.realPath path).toString))
    | some .other => return some .socket
    | some .dir =>
      if !isTree then return some .empty
      let children ← (← path.readDir).toList.mapM fun entry => do
        let name := Utf8.encode entry.fileName
        return (← loadNode mode isTree depth (l ++ [name])).map fun node => (name, node)
      return some (.dir (children.filterMap id))
    | none => return none

/-- Loads the nodes on the way along some steps, and the one at its end. -/
def loadWay (place : Place) :
    Nat → FileSystem → Location → List Path.Step → IO FileSystem
  | 0, fs, _, _ => return fs
  | _, fs, _, [] => return fs
  | fuel + 1, fs, l, .name n :: rest => do
    let next := l ++ [n]
    let isEnd := rest.all (· = .slash)
    match ← loadNode place.mode (place.isTree && isEnd) maxDepth next with
    | none => return fs
    | some (.link target) =>
      let fs := fs.put next (.link target)
      if target = next.path then return fs
      loadWay place fuel fs [] (target.steps ++ rest)
    | some node =>
      let isKnown := (fs.entry? next).isSome && !(place.isTree && isEnd)
      loadWay place fuel (if isKnown then fs else fs.put next node) next rest
  | fuel + 1, fs, l, .up :: rest => loadWay place fuel fs l.dropLast rest
  | fuel + 1, fs, l, _ :: rest => loadWay place fuel fs l rest

def load (places : List Place) : IO FileSystem := do
  let workingDir := locationOf (← IO.currentDir).toString
  let start : FileSystem := { children := [], workingDir }
  let here : Place := { path := workingDir.path }
  (here :: places).foldlM (fun fs place =>
    let base := if place.path.isAbsolute then [] else workingDir
    loadWay place maxDepth fs [] (base.map .name ++ place.path.steps)) start

def rights (mode : Mode) (shift : Nat) : IO.AccessRight where
  read := mode.getLsbD (shift + 2)
  write := mode.getLsbD (shift + 1)
  execution := mode.getLsbD shift

def storeEntry (path : String) : Entry → IO Unit
  | .dir => IO.FS.createDir path
  | .file mode content => do
    IO.FS.writeBinFile path ⟨content.toArray⟩
    IO.setAccessRights path ⟨rights mode 6, rights mode 3, rights mode 0⟩
  | .link _ => return ()

def removeEntry (path : String) : DirEntry → IO Unit
  | .dir => IO.FS.removeDir path
  | _ => IO.FS.removeFile path

/-- Whether a file can be written over without removing what stands in its place. -/
def isFileEntry : Option DirEntry → Bool
  | some (.file _ _) => true
  | _ => false

/-- Makes the changes on disk that lead from one state to another. -/
def store (before after : FileSystem) : IO Unit := do
  for (l, entry) in (before.nodesBelow []).reverse do
    let now := after.entry? l
    if now ≠ some entry && !(isFileEntry (some entry) && isFileEntry now) then
      removeEntry (text l) entry
  for (l, entry) in after.below [] do
    if (before.entry? l).bind DirEntry.row? ≠ some entry then storeEntry (text l) entry

end Disk

def environment : IO Environment := do
  let get (name : String) : IO (Option Bytes) := return (← IO.getEnv name).map Utf8.encode
  return {
    path := ← get "PATH"
    javaHome := ← get ("JAVA_" ++ toString Manifest.targetRelease ++ "_HOME")
    logSetting := ← get "RUST_LOG"
    home := ((← get "HOME").map Path.mk).getD (Path.ofString "/root") }

end LaunchDist

open LaunchDist in
/-- Runs the program and ends with its exit code. -/
def main (arguments : List String) : IO UInt32 := do
  let env ← environment
  let arguments := arguments.map Utf8.encode
  let places := match Arguments.parse arguments with
    | some (.run _ command) => Place.ofCommand env command
    | _ => []
  let before ← Disk.load places
  let (exit, after) := runProgram env arguments before
  Disk.store before after
  IO.print exit.output
  IO.eprint (exit.errors.getD usage)
  return exit.code.toUInt32
