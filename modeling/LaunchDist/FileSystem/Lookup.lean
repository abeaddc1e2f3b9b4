import LaunchDist.FileSystem.Basic
import LaunchDist.FileSystem.Failure
/-!
# Looking up a path

A look-up takes the steps of a path one by one from a directory and replaces a symbolic link by the
steps of its target. It ends at an existing node, or at a free name in an existing directory. The
purpose of the look-up decides what happens to a link that stands last. A working directory that has
been removed can be named and left upwards, but nothing is in it or can be made there.
-/
namespace LaunchDist

inductive Purpose where
  /-- To use what the path leads to: a last link is followed. -/
  | follow
  /-- To see what stands there: a last link is kept, unless a separator follows it. -/
  | inspect
  /-- To make or remove a directory: a last link is kept, also before a separator. -/
  | directory
  /-- To open a file for writing, new or not: a last link is followed, and no separator may end the
  path. -/
  | create
  /-- To name what the path leads to: a last link is followed, and every node on the way must have an
  absolute path that is not too long. -/
  | canonical
  deriving DecidableEq, Repr

/-- Where a look-up ends. -/
inductive Spot where
  | found (location : Location)
  | vacant (parent : Location) (name : Name)
  /-- A directory that has been removed. -/
  | removed
  deriving DecidableEq, Repr

namespace Purpose

/-- Whether nothing but a separator comes after a name. -/
def isLast : List Path.Step → Bool
  | [] => true
  | [.slash] => true
  | _ => false

/-- Whether a link before these steps is kept. -/
def keepsLink (purpose : Purpose) (rest : List Path.Step) : Bool :=
  match purpose with
  | .inspect => rest.isEmpty
  | .directory => isLast rest
  | _ => false

end Purpose

namespace FileSystem

/-- Links that one look-up may follow. -/
def maxLinks : Nat := 40

/-- Octets that a name may have. -/
def maxNameLength : Nat := 255

/-- Octets that a path may have. -/
def maxPathLength : Nat := 4095

def isTooLong (p : Path) : Bool :=
  maxPathLength < p.bytes.length

/-- The steps taken until the first link, from where `jump` goes on. -/
def lookupWith (fs : FileSystem) (purpose : Purpose)
    (jump : Location → List Path.Step → Except Errno Spot) :
    Location → List Path.Step → Except Errno Spot
  | current, [] => .ok (.found current)
  | current, .here :: rest | current, .slash :: rest =>
    if fs.isDirAt current then fs.lookupWith purpose jump current rest
    else .error .notDirectory
  | current, .up :: rest =>
    if fs.isDirAt current then fs.lookupWith purpose jump current.dropLast rest
    else .error .notDirectory
  | current, .name n :: rest =>
    if purpose = .canonical ∧ isTooLong (current ++ [n]).path then .error .nameTooLong
    else if !fs.isDirAt current then .error .notDirectory
    else if purpose = .create ∧ rest = [.slash] then .error .isDirectory
    else if maxNameLength < n.length then .error .nameTooLong
    else match fs.entry? (current ++ [n]) with
      | none => if Purpose.isLast rest then .ok (.vacant current n) else .error .noEntry
      | some (.link target) =>
        if purpose.keepsLink rest then .ok (.found (current ++ [n]))
        else jump (if target.isAbsolute then [] else current) (target.steps ++ rest)
      | some _ =>
        if purpose = .directory ∧ Purpose.isLast rest then .ok (.found (current ++ [n]))
        else fs.lookupWith purpose jump (current ++ [n]) rest

/-- A look-up that may follow so many links. -/
def lookupSteps (fs : FileSystem) (purpose : Purpose) :
    Nat → Location → List Path.Step → Except Errno Spot
  | 0 => fs.lookupWith purpose fun _ _ => .error .tooManyLinks
  | links + 1 => fs.lookupWith purpose (fs.lookupSteps purpose links)

/-- A look-up from where relative paths start, so many removed levels below the working directory. -/
def lookupRelative (fs : FileSystem) (purpose : Purpose) : Nat → List Path.Step → Except Errno Spot
  | 0, steps => fs.lookupSteps purpose maxLinks fs.workingDir steps
  | _ + 1, [] => .ok .removed
  | levels + 1, .here :: rest | levels + 1, .slash :: rest =>
    fs.lookupRelative purpose (levels + 1) rest
  | levels + 1, .up :: rest => fs.lookupRelative purpose levels rest
  | _ + 1, .name _ :: rest =>
    if purpose = .create ∧ rest = [.slash] then .error .isDirectory else .error .noEntry

/-- Where a path of any length leads. -/
def resolve (fs : FileSystem) (purpose : Purpose) (p : Path) : Except FileFailure Spot :=
  if p.bytes.contains 0 then .error .nulInPath
  else if p.bytes = [] then .error (.system .noEntry)
  else if p.isAbsolute then (fs.lookupSteps purpose maxLinks [] p.steps).mapError .system
  else if purpose = .canonical ∧ 0 < fs.lostLevels then .error (.system .noEntry)
  else (fs.lookupRelative purpose fs.lostLevels p.steps).mapError .system

/-- Where a path leads; a path that is too long leads nowhere. -/
def locate (fs : FileSystem) (purpose : Purpose) (p : Path) : Except FileFailure Spot :=
  if isTooLong p ∧ ¬ p.bytes.contains 0 then .error (.system .nameTooLong)
  else fs.resolve purpose p

/-- The node that a path leads to: where it is, unless it has been removed, and what it is. -/
def find (fs : FileSystem) (purpose : Purpose) (p : Path) :
    Except FileFailure (Option Location × DirEntry) :=
  match fs.locate purpose p with
  | .error e => .error e
  | .ok .removed => .ok (none, .dir)
  | .ok (.vacant _ _) => .error (.system .noEntry)
  | .ok (.found l) => match fs.entry? l with
    | some entry => .ok (some l, entry)
    | none => .error (.system .noEntry)

end FileSystem

end LaunchDist
