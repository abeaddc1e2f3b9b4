import LaunchDist.Text
/-!
# Paths

A path is octets, kept as they were written. It is read in two ways: as the steps that a look-up
takes, one by one, and as its normal components, in which repeated and trailing separators and
inner dots do not count.
-/
namespace LaunchDist

/-- The name of a directory entry. -/
abbrev Name := Bytes

structure Path where
  bytes : Bytes
  deriving DecidableEq, Repr

namespace Path

def separator : UInt8 := '/'.toUInt8

/-- Separates the entries of a path list, such as a search path. -/
def listSeparator : UInt8 := ':'.toUInt8

def ofString (s : String) : Path :=
  ⟨Utf8.encode s⟩

/-- The path as shown to a reader. -/
def display (p : Path) : String :=
  Utf8.decodeLossy p.bytes

def isAbsolute (p : Path) : Bool :=
  p.bytes.head? = some separator

/-- `q` taken relative to `p`; an absolute `q` stands for itself. -/
def join (p q : Path) : Path :=
  if q.isAbsolute then q
  else if p.bytes = [] ∨ p.bytes.getLast? = some separator then ⟨p.bytes ++ q.bytes⟩
  else ⟨p.bytes ++ separator :: q.bytes⟩

instance : HDiv Path String Path where
  hDiv p s := p.join (ofString s)

/-- One move of a look-up. -/
inductive Step where
  /-- Stay, in what must be a directory. -/
  | here
  /-- Go to the parent of what must be a directory. -/
  | up
  /-- Go to an entry. -/
  | name (n : Name)
  /-- The separator that ends a path: what comes before it must be a directory. -/
  | slash
  deriving DecidableEq, Repr

def segments (p : Path) : List Bytes :=
  p.bytes.splitOn separator

def step? (segment : Bytes) : Option Step :=
  if segment = [] then none
  else if segment = Utf8.encode "." then some .here
  else if segment = Utf8.encode ".." then some .up
  else some (.name segment)

/-- The moves that the path asks for, from the root or from the working directory. -/
def steps (p : Path) : List Step :=
  let moves := p.segments.filterMap step?
  if moves ≠ [] ∧ p.bytes.getLast? = some separator then moves ++ [.slash] else moves

/-- The last move, unless it is that of a separator. -/
def lastStep? (p : Path) : Option Step :=
  (p.steps.filter (· ≠ .slash)).getLast?

/-- Whether the last move goes to an entry. -/
def endsInName (p : Path) : Bool :=
  match p.lastStep? with
  | some (.name _) => true
  | _ => false

/-- The normal components: as the steps, but a dot counts at the start of a relative path only. -/
def components (p : Path) : List Step :=
  match p.segments.map step? with
  | some .here :: rest => .here :: (rest.filterMap id).filter (· ≠ .here)
  | moves => (moves.filterMap id).filter (· ≠ .here)

def Step.bytes : Step → Bytes
  | .here => Utf8.encode "."
  | .up => Utf8.encode ".."
  | .name n => n
  | .slash => []

/-- The path from the root, or from the working directory, along some components. -/
def ofComponents (absolute : Bool) (parts : List Step) : Path :=
  let relative := List.intercalate [separator] (parts.map Step.bytes)
  ⟨if absolute then separator :: relative else relative⟩

/-- The paths along ever fewer of some components, which are given last first. -/
def shorter (absolute : Bool) : List Step → List Path
  | [] => []
  | _ :: rest => ofComponents absolute rest.reverse :: shorter absolute rest

/-- The parent of the path, its parent, and so on up to the root or the empty path. -/
def parents (p : Path) : List Path :=
  shorter p.isAbsolute p.components.reverse

/-- The last component, unless it is a dot or two. -/
def fileName? (p : Path) : Option Name :=
  match p.components.getLast? with
  | some (.name n) => some n
  | _ => none

/-- The entries of a path list that are not empty. -/
def splitList (list : Bytes) : List Path :=
  ((list.splitOn listSeparator).filter (· ≠ [])).map Path.mk

end Path

end LaunchDist
