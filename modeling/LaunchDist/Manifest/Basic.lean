/-!
# Launch manifests

What a launcher needs to know to start a program: the kind of program, its entry point, the Java
release to run it with and the class path, in order. It is written as an object whose members stand
in a fixed order, one on a line, indented by two spaces a level, and so do the class path entries;
an empty class path is written on one line.
-/
namespace LaunchDist

structure Manifest where
  programType : String
  entrypoint : String
  javaVersion : UInt32
  classpath : List String
  deriving DecidableEq, Repr

namespace Manifest

/-- The name of a manifest file, next to the launcher that reads it. -/
def fileName : String := "my-java-launcher.json"

/-- The only kind of program that a launcher starts. -/
def javaProgram : String := "java"

/-- The Java release that new manifests ask for. -/
def targetRelease : UInt32 := 21

/-- The Java releases that a launcher can find. -/
def supportedReleases : List UInt32 := [11, 17, 21]

/-- What every class path entry starts with: the way from the launcher to the libraries. -/
def libraryRoot : String := "../lib/"

/-- The escape of a control character that has no short one. -/
def hexEscape (c : Char) : List Char :=
  let digit (n : Nat) : Char := (Nat.digitChar n)
  ['\\', 'u', '0', '0', digit (c.toNat / 16), digit (c.toNat % 16)]

/-- A character inside a written string. -/
def escape (c : Char) : List Char :=
  match c with
  | '"' => ['\\', '"']
  | '\\' => ['\\', '\\']
  | '\x08' => ['\\', 'b']
  | '\x0c' => ['\\', 'f']
  | '\n' => ['\\', 'n']
  | '\r' => ['\\', 'r']
  | '\t' => ['\\', 't']
  | c => if c < ' ' then hexEscape c else [c]

def quoted (s : String) : List Char :=
  '"' :: s.toList.flatMap escape ++ ['"']

/-- A member on a line of its own: a line break, the indentation, the key and the value. -/
def memberLine (indent : Nat) (key : String) (value : List Char) : List Char :=
  '\n' :: List.replicate indent ' ' ++ quoted key ++ [':', ' '] ++ value

/-- The class path entries, each on a line of its own. -/
def entryLines : List String → List Char
  | [] => []
  | [entry] => '\n' :: List.replicate 6 ' ' ++ quoted entry
  | entry :: rest => '\n' :: List.replicate 6 ' ' ++ quoted entry ++ ',' :: entryLines rest

def classpathList (classpath : List String) : List Char :=
  if classpath = [] then ['[', ']']
  else '[' :: entryLines classpath ++ '\n' :: List.replicate 4 ' ' ++ [']']

def javaObject (m : Manifest) : List Char :=
  '\x7b' :: memberLine 4 "java_version" (Nat.toDigits 10 m.javaVersion.toNat) ++ ',' ::
    memberLine 4 "classpath" (classpathList m.classpath) ++
    '\n' :: List.replicate 2 ' ' ++ ['\x7d']

/-- The manifest as written to its file, without a line break at the end. -/
def render (m : Manifest) : String :=
  String.ofList <| '\x7b' :: memberLine 2 "program_type" (quoted m.programType) ++ ',' ::
    memberLine 2 "entrypoint" (quoted m.entrypoint) ++ ',' ::
    memberLine 2 "java_configuration" (javaObject m) ++ ['\n', '\x7d']

end Manifest

end LaunchDist
