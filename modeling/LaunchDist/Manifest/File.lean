import LaunchDist.Artifact
import LaunchDist.Json.Reader
import LaunchDist.Request
/-!
# Manifest files

A manifest is read from an object of three members, one of them an object of its own; each must be
there once, in any order, and members of other names are passed over. Beyond that a launcher makes
demands on what the members say.
-/
namespace LaunchDist.Manifest

open Json

/-- The members of the inner object read so far. -/
structure JavaMembers where
  version? : Option UInt32 := none
  classpath? : Option (List String) := none

/-- The members of the outer object read so far. -/
structure Members where
  programType? : Option String := none
  entrypoint? : Option String := none
  java? : Option (UInt32 × List String) := none

/-- Reads the value of a known member that has not been read before. -/
def readMember {α σ : Type} (old : Option α) (key : String) (readItem : List Char → Reading α)
    (store : α → σ) (cs : List Char) : Reading σ :=
  match skipFreshColon old.isSome key cs with
  | .error fault => .error fault
  | .ok rest => (readItem rest).andThen fun value rest => .ok (store value, rest)

/-- Passes over the value of a member of another name. -/
def skipMember {σ : Type} (state : σ) (cs : List Char) : Reading σ :=
  match skipColon cs with
  | .error fault => .error fault
  | .ok rest => match skipValue rest with
    | .ok rest => .ok (state, rest)
    | .error fault => .error fault

/-- The value of a member, which must be there. -/
def require {α : Type} (name : String) : Option α → Except Cause α
  | some value => .ok value
  | none => .error (.missingField name)

def javaRecord : Record JavaMembers (UInt32 × List String) where
  name := "JavaConfiguration"
  start := {}
  member state key cs :=
    if key = "java_version" then
      readMember state.version? key readWord (fun v => { state with version? := some v }) cs
    else if key = "classpath" then
      readMember state.classpath? key (readList readText)
        (fun v => { state with classpath? := some v }) cs
    else skipMember state cs
  finish state := do
    let version ← require "java_version" state.version?
    let classpath ← require "classpath" state.classpath?
    return (version, classpath)
  fields cs :=
    let expected := "struct JavaConfiguration with 2 elements"
    (readField 0 expected readWord cs).andThen fun version cs =>
      (readField 1 expected (readList readText) cs).andThen fun classpath cs =>
        .ok ((version, classpath), cs)

def record : Record Members Manifest where
  name := "LaunchManifest"
  start := {}
  member state key cs :=
    if key = "program_type" then
      readMember state.programType? key readText
        (fun v => { state with programType? := some v }) cs
    else if key = "entrypoint" then
      readMember state.entrypoint? key readText (fun v => { state with entrypoint? := some v }) cs
    else if key = "java_configuration" then
      readMember state.java? key (readRecord javaRecord)
        (fun v => { state with java? := some v }) cs
    else skipMember state cs
  finish state := do
    let programType ← require "program_type" state.programType?
    let entrypoint ← require "entrypoint" state.entrypoint?
    let (version, classpath) ← require "java_configuration" state.java?
    return ⟨programType, entrypoint, version, classpath⟩
  fields cs :=
    let expected := "struct LaunchManifest with 3 elements"
    (readField 0 expected readText cs).andThen fun programType cs =>
      (readField 1 expected readText cs).andThen fun entrypoint cs =>
        (readField 2 expected (readRecord javaRecord) cs).andThen fun (version, classpath) cs =>
          .ok (⟨programType, entrypoint, version, classpath⟩, cs)

/-- The manifest that a text holds. -/
def parse (text : String) : Except PlacedFault Manifest :=
  readDocument (readRecord record) text

/-- The file name that a class path entry gives below the library root; empty if it does not start
there. -/
def libraryName (entry : String) : List Char :=
  (libraryRoot.toList.isPrefixOf? entry.toList).getD []

/-- Whether the entry names a file directly inside the library root. -/
def isLibraryEntry (entry : String) : Bool :=
  let name := libraryName entry
  !name.isEmpty && !name.contains '/' && !name.contains '\\'

/-- Whether the manifest can be launched; otherwise the first thing that is wrong with it. -/
def validate (m : Manifest) : Except Failure Unit :=
  if m.programType ≠ javaProgram then .error (.invalidManifest (.notJava m.programType))
  else if Text.trim m.entrypoint = "" then .error (.invalidManifest .noEntrypoint)
  else if m.javaVersion ∉ supportedReleases then
    .error (.invalidManifest (.unsupportedRelease m.javaVersion))
  else if m.classpath = [] then .error (.invalidManifest .emptyClasspath)
  else match m.classpath.find? (!isLibraryEntry ·) with
    | some entry => .error (.invalidManifest (.strayEntry entry))
    | none => .ok ()

/-- The manifest of a program that runs with some artifacts, in class path order. -/
def generate (mainClass : MainClass) (artifacts : List Artifact) : Manifest where
  programType := javaProgram
  entrypoint := mainClass.name
  javaVersion := targetRelease
  classpath := artifacts.map Artifact.classpathEntry

/-- Writes the manifest to its place below the build directory, over an older one. -/
def store (m : Manifest) (layout : BuildLayout) : Action Path := do
  Action.changeAt layout.manifestDir (FileSystem.makeDirs layout.manifestDir)
  Action.changeAt layout.manifestPath
    (FileSystem.Change.atomic (·.write layout.manifestPath (Utf8.encode m.render)))
  Action.report (.generatedManifest layout.manifestPath m.classpath.length)
  return layout.manifestPath

/-- The manifest at a path of a state. -/
def atPath (fs : FileSystem) (p : Path) : Except Failure Manifest :=
  match fs.readText p with
  | .error failure => .error (.io p failure)
  | .ok text => (parse text).mapError (.manifestParse p)

/-- Reads the manifest at a path. -/
def load (p : Path) : Action Manifest := do
  let m ← Action.query (atPath · p)
  Action.report (.readManifest p)
  return m

end LaunchDist.Manifest
