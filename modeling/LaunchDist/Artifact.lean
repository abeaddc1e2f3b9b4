import LaunchDist.Action
/-!
# Artifacts on the class path

An artifact is a file to be put into `lib/`. It keeps the name under which it was given, also where
that is a link, and the canonical path of the file.
-/
namespace LaunchDist

structure Artifact where
  fileName : String
  path : Path
  deriving DecidableEq, Repr

namespace Artifact

/-- The entry for the artifact in a manifest. -/
def classpathEntry (a : Artifact) : String :=
  Manifest.libraryRoot ++ a.fileName

/-- The artifact at a path of a state. -/
def atPath (fs : FileSystem) (p : Path) : Except Failure Artifact :=
  match fs.canonicalize p with
  | .error failure => .error (.io p failure)
  | .ok l =>
    if fs.isDirAt l then .error (.configuration (.directoryArtifact p))
    else match p.fileName?.bind Utf8.decode? with
      | some fileName => .ok ⟨fileName, l.path⟩
      | none => .error (.configuration (.unnamedArtifact p))

/-- Resolves the artifact at a path. -/
def resolve (p : Path) : Action Artifact :=
  Action.query (atPath · p)

/-- Resolves paths in order, up to the first that fails. -/
def resolveAll : List Path → Action (List Artifact)
  | [] => return []
  | p :: rest => do
    let artifact ← resolve p
    Action.report (.resolvedArtifact artifact.fileName artifact.path)
    return artifact :: (← resolveAll rest)

/-- Resolves the entries of path lists, one list after the other. -/
def resolveClasspath : List Bytes → Action (List Artifact)
  | [] => return []
  | list :: rest => do
    let artifacts ← resolveAll (Path.splitList list)
    return artifacts ++ (← resolveClasspath rest)

/-- The second occurrences of names, given those that have occurred already, once and more than
once. -/
def repeated (seen found : List String) : List String → List String
  | [] => []
  | name :: rest =>
    if name ∉ seen then repeated (name :: seen) found rest
    else if name ∈ found then repeated seen found rest
    else name :: repeated seen (name :: found) rest

/-- The file names that several artifacts share, in the order of their second occurrences. -/
def sharedFileNames (artifacts : List Artifact) : List String :=
  repeated [] [] (artifacts.map fileName)

/-- Warns of each shared file name. -/
def warnOfShared (artifacts : List Artifact) : Action (List String) := do
  (sharedFileNames artifacts).forM fun name => Action.report (.sharedFileName name)
  return sharedFileNames artifacts

end Artifact

end LaunchDist
