import LaunchDist.FileSystem.Lookup
/-!
# File operations

Questions about a state, and the changes that programs make to it. A change either succeeds or
leaves the state alone; the two that can stop half way, making a directory with its parents and
removing a tree, also say what state they leave.

A program may read and write everything, as a privileged user may: permission bits are kept, but never
stand in the way. Nothing runs out, neither the disk nor the file descriptors, and no device fails. So a
file that can be looked up can be read, removed and given other bits, and a copy once begun is brought to
its end. No other program changes the state meanwhile.
-/
namespace LaunchDist

namespace FileSystem

/-- What stands at a path, a last link being kept. -/
def inspect (fs : FileSystem) (p : Path) : Except FileFailure DirEntry :=
  (fs.find .inspect p).map (·.2)

/-- What a path leads to, links being followed. -/
def stat (fs : FileSystem) (p : Path) : Except FileFailure DirEntry :=
  (fs.find .follow p).map (·.2)

def isDir (fs : FileSystem) (p : Path) : Bool :=
  match fs.stat p with
  | .ok .dir => true
  | _ => false

def isFile (fs : FileSystem) (p : Path) : Bool :=
  match fs.stat p with
  | .ok (.file _ _) => true
  | _ => false

/-- Whether the path leads to a regular file that someone may run. -/
def isProgram (fs : FileSystem) (p : Path) : Bool :=
  match fs.stat p with
  | .ok (.file mode _) => mode &&& 0o111 ≠ 0
  | _ => false

/-- The location a path leads to, free of dots and links. -/
def canonicalize (fs : FileSystem) (p : Path) : Except FileFailure Location :=
  match fs.resolve .canonical p with
  | .ok (.found l) => .ok l
  | .ok _ => .error (.system .noEntry)
  | .error e => .error e

/-- The content of the file at a path. -/
def read (fs : FileSystem) (p : Path) : Except FileFailure Bytes :=
  match fs.stat p with
  | .ok (.file _ content) => .ok content
  | .ok .socket => .error (.system .noDeviceOrAddress)
  | .ok _ => .error (.system .isDirectory)
  | .error e => .error e

/-- The file at a path as text. -/
def readText (fs : FileSystem) (p : Path) : Except FileFailure String :=
  match fs.read p with
  | .ok content => match Utf8.decode? content with
    | some text => .ok text
    | none => .error .notText
  | .error e => .error e

/-- The names in the directory at a path. -/
def list (fs : FileSystem) (p : Path) : Except FileFailure (List Name) :=
  match fs.find .follow p with
  | .ok (some l, .dir) => .ok (fs.namesAt l)
  | .ok (none, .dir) => .ok []
  | .ok _ => .error (.system .notDirectory)
  | .error e => .error e

/-- Permission bits of a file that is made by opening it. -/
def newFileMode : Mode := 0o644

/-- Where a file opened for writing at a path lies, and its permission bits. -/
def target (fs : FileSystem) (p : Path) : Except FileFailure (Location × Mode) :=
  match fs.locate .create p with
  | .ok (.vacant parent name) => .ok (parent ++ [name], newFileMode)
  | .ok (.found l) => match fs.entry? l with
    | some (.file mode _) => .ok (l, mode)
    | some .socket => .error (.system .noDeviceOrAddress)
    | _ => .error (.system .isDirectory)
  | .ok .removed => .error (.system .isDirectory)
  | .error e => .error e

/-- Makes the file at a path hold the content, and nothing else. -/
def write (fs : FileSystem) (p : Path) (content : Bytes) : Except FileFailure FileSystem :=
  match fs.target p with
  | .ok (l, mode) => .ok (fs.put l (.file mode content))
  | .error e => .error e

/-- Copies content and permission bits of a regular file over the file at `dest`, which is emptied
first: a file copied to itself ends up empty. A failure names the path it is about. -/
def copyFile (fs : FileSystem) (source dest : Path) : Except (Path × FileFailure) FileSystem :=
  match fs.find .follow source with
  | .error e => .error (source, e)
  | .ok (some l, .file mode content) => match fs.target dest with
    | .ok (l', _) => .ok (fs.put l' (.file mode (if l = l' then [] else content)))
    | .error e => .error (dest, e)
  | .ok (_, .socket) => .error (source, .system .noDeviceOrAddress)
  | .ok _ => .error (source, .notRegular)

/-- Makes a directory; its parent must be there. -/
def makeDir (fs : FileSystem) (p : Path) : Except FileFailure FileSystem :=
  match fs.locate .directory p with
  | .ok (.vacant parent name) => .ok (fs.put (parent ++ [name]) .empty)
  | .ok _ => .error (.system .alreadyExists)
  | .error e => .error e

/-- Removes what stands at a path, unless it is a directory. -/
def unlink (fs : FileSystem) (p : Path) : Except FileFailure FileSystem :=
  match fs.find .inspect p with
  | .ok (some l, .file _ _) | .ok (some l, .link _) | .ok (some l, .socket) => .ok (fs.remove l)
  | .ok _ => .error (.system .isDirectory)
  | .error e => .error e

/-- Removes an empty directory, which a path that ends in dots does not name. -/
def removeDir (fs : FileSystem) (p : Path) : Except FileFailure FileSystem :=
  match fs.find .directory p with
  | .error e => .error e
  | .ok found => match p.lastStep?, found with
    | none, _ => .error (.system .busy)
    | some .up, _ => .error (.system .notEmpty)
    | some (.name _), (some l, .dir) =>
      if fs.namesAt l ≠ [] then .error (.system .notEmpty) else .ok (fs.remove l)
    | some (.name _), _ => .error (.system .notDirectory)
    | some _, _ => .error (.system .invalid)

/-- Gives the file at a path other permission bits; those of other nodes are not kept. -/
def chmod (fs : FileSystem) (p : Path) (mode : Mode) : Except FileFailure FileSystem :=
  match fs.find .follow p with
  | .ok (some l, .file _ content) => .ok (fs.put l (.file mode content))
  | .ok _ => .ok fs
  | .error e => .error e

/-- Makes a symbolic link, at a path that no separator ends. -/
def makeLink (fs : FileSystem) (target p : Path) : Except FileFailure FileSystem :=
  if target.bytes.contains 0 then .error .nulInPath
  else if target.bytes = [] then .error (.system .noEntry)
  else if isTooLong target then .error (.system .nameTooLong)
  else match fs.locate .directory p with
  | .ok (.vacant parent name) =>
    if p.steps.getLast? = some .slash then .error (.system .noEntry)
    else .ok (fs.put (parent ++ [name]) (.link target))
  | .ok _ => .error (.system .alreadyExists)
  | .error e => .error e

/-- Moves the node at one location to another, in place of what stands there. -/
def moveNode (fs : FileSystem) (l l' : Location) : FileSystem :=
  let moved := ((fs.remove l').update l none).update l' (fs.node? l)
  if l <+: moved.workingDir then
    { moved with workingDir := l' ++ moved.workingDir.drop l.length }
  else moved

/-- Why the entry at a location cannot take the place of what stands at another one, if it cannot. -/
def moveProblem? (fs : FileSystem) (l : Location) (entry : DirEntry) (l' : Location) :
    Option Errno :=
  if l <+: l' then some .invalid
  else if l' <+: l then some .notEmpty
  else match entry, fs.entry? l' with
    | _, none => none
    | .dir, some .dir => if fs.namesAt l' ≠ [] then some .notEmpty else none
    | .dir, some _ => some .notDirectory
    | _, some .dir => some .isDirectory
    | _, some _ => none

/-- Moves what stands at a path to another one. A directory replaces only an empty one, and anything
else only what is no directory; what is moved to itself stays. -/
def move (fs : FileSystem) (source dest : Path) : Except FileFailure FileSystem :=
  match fs.find .directory source, fs.locate .directory dest with
  | .error e, _ | _, .error e => .error e
  | .ok (none, _), _ | _, .ok .removed => .error (.system .busy)
  | .ok (some l, entry), .ok spot =>
    let l' := match spot with
      | .vacant parent name => parent ++ [name]
      | .found l' => l'
      | .removed => []
    let isDirNeeded := [source, dest].any fun p => p.steps.getLast? = some .slash
    if [source, dest].any (!·.endsInName) then .error (.system .busy)
    else if isDirNeeded ∧ entry ≠ .dir then .error (.system .notDirectory)
    else if l = l' then .ok fs
    else match fs.moveProblem? l entry l' with
      | some e => .error (.system e)
      | none => .ok (fs.moveNode l l')

/-- A change that may stop half way: what it fails with, and the state in both cases. -/
abbrev Change := EStateM FileFailure FileSystem

/-- A change that succeeds or leaves the state alone. -/
def Change.atomic (change : FileSystem → Except FileFailure FileSystem) : Change Unit := fun fs =>
  match change fs with
  | .ok fs' => .ok () fs'
  | .error e => .error e fs

/-- Makes a directory at the path, unless one is there; if the way to it is missing, `makeParent` is
to make it first. -/
def makeDirAfter (p : Path) (makeParent : Change Unit) : Change Unit := fun fs =>
  if p.bytes = [] then .ok () fs
  else match fs.makeDir p with
    | .ok fs' => .ok () fs'
    | .error (.system .noEntry) => match makeParent fs with
      | .error e fs' => .error e fs'
      | .ok () fs' => match fs'.makeDir p with
        | .ok fs'' => .ok () fs''
        | .error e => if fs'.isDir p then .ok () fs' else .error e fs'
    | .error e => if fs.isDir p then .ok () fs else .error e fs

/-- Makes a directory together with those of its parents, the nearest first, that it lacks. -/
def makeDirsFrom (p : Path) : List Path → Change Unit
  | [] => makeDirAfter p fun fs => .error (.system .noEntry) fs
  | parent :: rest => makeDirAfter p (makeDirsFrom parent rest)

/-- Makes a directory together with the parents it lacks. -/
def makeDirs (p : Path) : Change Unit :=
  makeDirsFrom p p.parents

/-- Empties the directory at a path and removes it. It is no failure if emptying it took away the
way to it. -/
def removeTree (p : Path) : Change Unit := fun fs =>
  match fs.find .inspect p with
  | .error e => .error e fs
  | .ok (l?, _) =>
    let emptied := l?.elim fs fs.clear
    match emptied.removeDir p with
    | .ok fs' => .ok () fs'
    | .error (.system .noEntry) => .ok () emptied
    | .error e => .error e emptied

/-- Removes what stands at a path: a directory with all that is below it, a link without its
target. -/
def discard (p : Path) : Change Unit := fun fs =>
  match fs.inspect p with
  | .ok .dir => removeTree p fs
  | .ok _ => Change.atomic (·.unlink p) fs
  | .error e => .error e fs

/-- Makes sure that the path names an empty directory: what stands there is removed, and the directory
made anew with the parents it lacks. -/
def resetDir (p : Path) : Change Unit := fun fs =>
  match fs.inspect p with
  | .ok _ => (discard p >>= fun _ => makeDirs p) fs
  | .error (.system .noEntry) => makeDirs p fs
  | .error e => .error e fs

end FileSystem

end LaunchDist
