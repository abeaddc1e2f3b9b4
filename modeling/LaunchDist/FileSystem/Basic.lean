import LaunchDist.Path
/-!
# The file system as a tree

Directories hold named nodes; a node is a regular file, a symbolic link, a socket or a directory. A
node is addressed by its location, the names on the way to it from the root. What programs can tell of
a state is `entry?`, the kind of node at each location, and every change is an `update` at one location.

A tree has no hard links: no two locations share a file. Its special files are sockets, which cannot
be opened. Pipes and devices are looked up, moved and removed in the same way, and a socket stands for
them there; what opening a pipe or a device does is left out.
-/
namespace LaunchDist

/-- Permission bits, with the set-user, set-group and sticky bits above them. -/
abbrev Mode := BitVec 12

inductive Node where
  | file (mode : Mode) (content : Bytes)
  | link (target : Path)
  | socket
  | dir (children : List (Name × Node))

/-- A node seen without what lies below it. -/
inductive DirEntry where
  | file (mode : Mode) (content : Bytes)
  | link (target : Path)
  | socket
  | dir
  deriving DecidableEq, Repr

/-- A row of a listing, in which sockets are left out. -/
inductive Entry where
  | file (mode : Mode) (content : Bytes)
  | link (target : Path)
  | dir
  deriving DecidableEq, Repr

def DirEntry.row? : DirEntry → Option Entry
  | .file mode content => some (.file mode content)
  | .link target => some (.link target)
  | .socket => none
  | .dir => some .dir

/-- The names from the root to a node, none of them a dot or two. -/
abbrev Location := List Name

/-- The absolute path to a location. -/
def Location.path (l : Location) : Path :=
  Path.ofComponents true (l.map .name)

namespace Node

def empty : Node := .dir []

def entry : Node → DirEntry
  | .file mode content => .file mode content
  | .link target => .link target
  | .socket => .socket
  | .dir _ => .dir

def child? (n : Name) : Node → Option Node
  | .dir children => children.lookup n
  | _ => none

/-- The node at a location below this one. -/
def at? : Node → Location → Option Node
  | node, [] => some node
  | node, n :: rest => (node.child? n).bind fun child => child.at? rest

/-- The children with one of them replaced, added or removed. -/
def setChild (n : Name) (child : Option Node) (children : List (Name × Node)) :
    List (Name × Node) :=
  let others := children.filter fun c => c.1 ≠ n
  match child with
  | some node => (n, node) :: others
  | none => others

/-- The node with what stands at a location replaced, added or removed; nothing changes if the way
to the location does not lead through directories. -/
def update (value : Option Node) : Location → Option Node → Option Node
  | [], _ => value
  | n :: rest, some (.dir children) =>
    some (.dir (setChild n (update value rest (children.lookup n)) children))
  | _ :: _, node => node

def insertName (n : Name) : List Name → List Name
  | [] => [n]
  | m :: rest =>
    if n < m then n :: m :: rest
    else if n = m then m :: rest
    else m :: insertName n rest

/-- The names of the children, each once, in ascending order. -/
def names : Node → List Name
  | .dir children => children.foldr (fun c sorted => insertName c.1 sorted) []
  | _ => []

mutual

/-- Every node from this one down, with its location. -/
def walk (here : Location) : Node → List (Location × DirEntry)
  | .dir children => (here, .dir) :: walkAll here children
  | node => [(here, node.entry)]

def walkAll (here : Location) : List (Name × Node) → List (Location × DirEntry)
  | [] => []
  | (n, node) :: rest => node.walk (here ++ [n]) ++ walkAll here rest

end

end Node

/-- A state: what the root directory holds, and where relative paths start. A working directory that
is removed stays where relative paths start; it is told by the nearest directory above it that is
still there, and by how many levels it lay below that one. -/
structure FileSystem where
  children : List (Name × Node)
  workingDir : Location
  /-- The removed directories from below `workingDir` down to where relative paths start. -/
  lostLevels : Nat := 0

namespace FileSystem

def node? (fs : FileSystem) (l : Location) : Option Node :=
  (Node.dir fs.children).at? l

def entry? (fs : FileSystem) (l : Location) : Option DirEntry :=
  (fs.node? l).map Node.entry

def isDirAt (fs : FileSystem) (l : Location) : Bool :=
  fs.entry? l = some .dir

/-- The names in the directory at a location, in ascending order. -/
def namesAt (fs : FileSystem) (l : Location) : List Name :=
  ((fs.node? l).map Node.names).getD []

def update (fs : FileSystem) (l : Location) (value : Option Node) : FileSystem :=
  match Node.update value l (some (.dir fs.children)) with
  | some (.dir children) => { fs with children }
  | _ => fs

def put (fs : FileSystem) (l : Location) (node : Node) : FileSystem :=
  fs.update l (some node)

/-- The state once all directories below a location on the way to the working directory are gone. -/
def retreat (fs : FileSystem) (l : Location) : FileSystem :=
  { fs with
    workingDir := l
    lostLevels := fs.lostLevels + (fs.workingDir.length - l.length) }

/-- Empties the directory at a location. -/
def clear (fs : FileSystem) (l : Location) : FileSystem :=
  if l <+: fs.workingDir then (fs.put l .empty).retreat l else fs.put l .empty

/-- Removes the node at a location, with all that is below it. -/
def remove (fs : FileSystem) (l : Location) : FileSystem :=
  if l <+: fs.workingDir then (fs.update l none).retreat l.dropLast else fs.update l none

/-- Every node below a location, with its location relative to that one. -/
def nodesBelow (fs : FileSystem) (l : Location) : List (Location × DirEntry) :=
  match fs.node? l with
  | some (.dir children) => Node.walkAll [] children
  | _ => []

/-- The listing of what lies below a location. -/
def below (fs : FileSystem) (l : Location) : List (Location × Entry) :=
  (fs.nodesBelow l).filterMap fun (rel, entry) => entry.row?.map fun row => (rel, row)

end FileSystem

end LaunchDist
