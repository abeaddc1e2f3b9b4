import LaunchDist.Path
/-!
# Command line arguments

The arguments are read from left to right, and the first one that does not fit decides. An option
takes its value from the same argument, behind an equals sign, or from the next one, which then must
not look like an option.
-/
namespace LaunchDist

/-- What the commands that make a manifest are told of a program. -/
structure ProgramOptions where
  mainClass : String
  jar : Path
  classpath : List Bytes
  buildDir : Path
  deriving DecidableEq, Repr

inductive Command where
  | package (name : String) (program : ProgramOptions) (distDir : Option Path)
  | manifest (program : ProgramOptions)
  | stageLauncher (buildDir : Path)
  | check (distDir : Path)
  | doctor
  deriving DecidableEq, Repr

/-- What the arguments ask for. -/
inductive Invocation where
  | version
  | help
  | run (verbose : Bool) (command : Command)
  deriving DecidableEq, Repr

namespace Arguments

/-- What an option may be given: text, a path that is not empty, or any octets. -/
inductive ValueKind where
  | text
  | path
  | octets
  deriving DecidableEq, Repr

structure OptionRule where
  name : String
  kind : ValueKind
  isRepeatable : Bool := false
  deriving DecidableEq, Repr

/-- What the arguments of a command may be. -/
structure Grammar where
  options : List OptionRule
  /-- How many paths may stand without an option. -/
  operands : Nat := 0
  deriving DecidableEq, Repr

/-- The arguments of a command that have been read. -/
structure Words where
  verbose : Bool := false
  options : List (String × Bytes) := []
  operands : List Path := []
  /-- The option whose value comes next. -/
  pending : Option OptionRule := none
  /-- Whether options have been ended by a double dash. -/
  optionsEnded : Bool := false
  deriving DecidableEq, Repr

/-- Why reading ends before the last argument. -/
inductive Stop where
  | refused
  | help
  | version
  deriving DecidableEq, Repr

def dash : UInt8 := '-'.toUInt8

def ValueKind.accepts (kind : ValueKind) (value : Bytes) : Bool :=
  match kind with
  | .text => (Utf8.decode? value).isSome
  | .path => !value.isEmpty
  | .octets => true

namespace Words

def beVerbose (words : Words) : Except Stop Words :=
  if words.verbose then .error .refused else .ok { words with verbose := true }

def addOption (words : Words) (rule : OptionRule) (value : Bytes) : Except Stop Words :=
  if !rule.kind.accepts value then .error .refused
  else if !rule.isRepeatable ∧ (words.options.lookup rule.name).isSome then .error .refused
  else .ok { words with options := words.options ++ [(rule.name, value)], pending := none }

def addOperand (words : Words) (grammar : Grammar) (value : Bytes) : Except Stop Words :=
  if value = [] ∨ grammar.operands ≤ words.operands.length then .error .refused
  else .ok { words with operands := words.operands ++ [⟨value⟩] }

/-- Takes the letters of an argument of short flags. -/
def addFlags (words : Words) : Bytes → Except Stop Words
  | [] => .ok words
  | flag :: rest =>
    if flag = 'v'.toUInt8 then words.beVerbose.bind fun words => words.addFlags rest
    else if flag = 'h'.toUInt8 then .error .help
    else .error .refused

/-- Takes an argument without its double dash. -/
def addLong (words : Words) (grammar : Grammar) (body : Bytes) : Except Stop Words :=
  let name := body.takeWhile (· ≠ '='.toUInt8)
  match grammar.options.find? fun rule => Utf8.encode rule.name = name with
  | some rule => match body.drop name.length with
    | _ :: value => words.addOption rule value
    | [] => .ok { words with pending := some rule }
  | none =>
    if body = Utf8.encode "verbose" then words.beVerbose
    else if body = Utf8.encode "help" then .error .help
    else .error .refused

/-- Takes one more argument. -/
def add (grammar : Grammar) (words : Words) (word : Bytes) : Except Stop Words :=
  if words.optionsEnded then words.addOperand grammar word
  else match words.pending, word with
    | some rule, [] => words.addOption rule []
    | some rule, first :: rest =>
      if first = dash ∧ rest ≠ [] then .error .refused else words.addOption rule (first :: rest)
    | none, first :: second :: body =>
      if first ≠ dash then words.addOperand grammar word
      else if second ≠ dash then words.addFlags (second :: body)
      else if body = [] then .ok { words with optionsEnded := true }
      else words.addLong grammar body
    | none, word => words.addOperand grammar word

/-- Reads the arguments of a command. -/
def read (grammar : Grammar) (arguments : List Bytes) : Except Stop Words := do
  let words ← arguments.foldlM (add grammar) {}
  if words.pending.isSome then throw .refused
  return words

/-- The value of an option that must be given. -/
def required (words : Words) (name : String) : Except Stop Bytes :=
  match words.options.lookup name with
  | some value => .ok value
  | none => .error .refused

/-- The text of an option that must be given. -/
def requiredText (words : Words) (name : String) : Except Stop String := do
  return Utf8.decodeLossy (← words.required name)

/-- The values of an option that may be repeated. -/
def all (words : Words) (name : String) : List Bytes :=
  (words.options.filter (·.1 = name)).map (·.2)

def buildDir (words : Words) : Path :=
  match words.options.lookup "build-dir" with
  | some value => ⟨value⟩
  | none => Path.ofString "build"

def programOptions (words : Words) : Except Stop ProgramOptions := do
  return {
    mainClass := ← words.requiredText "main-class"
    jar := ⟨← words.required "jar"⟩
    classpath := words.all "classpath"
    buildDir := words.buildDir }

end Words

def buildDirRule : OptionRule := ⟨"build-dir", .path, false⟩

/-- The options of the commands that make a manifest. -/
def programRules : List OptionRule :=
  [⟨"main-class", .text, false⟩, ⟨"jar", .path, false⟩, ⟨"classpath", .octets, true⟩, buildDirRule]

/-- What the commands take, and what they are told by it. -/
def commands : List (String × Grammar × (Words → Except Stop Command)) :=
  [("package", { options := ⟨"name", .text, false⟩ :: ⟨"dist-dir", .path, false⟩ :: programRules },
      fun words => do
        let name ← words.requiredText "name"
        let program ← words.programOptions
        return .package name program ((words.options.lookup "dist-dir").map Path.mk)),
    ("manifest", { options := programRules }, fun words => return .manifest (← words.programOptions)),
    ("stage-launcher", { options := [buildDirRule] },
      fun words => return .stageLauncher words.buildDir),
    ("check", { options := [], operands := 1 }, fun words =>
      match words.operands with
      | [distDir] => return .check distDir
      | _ => throw .refused),
    ("doctor", { options := [] }, fun _ => return .doctor)]

/-- Whether help is asked for on the program or on one of its commands. -/
def isHelp (name : Bytes) (arguments : List Bytes) : Bool :=
  name = Utf8.encode "help" && arguments.length ≤ 1 &&
    arguments.all fun topic => ("help" :: commands.map (·.1)).any (Utf8.encode · = topic)

/-- Reads what comes after the name of a command. -/
def readCommand (verbose : Bool) (name : Bytes) (arguments : List Bytes) :
    Except Stop Invocation :=
  match commands.find? fun command => Utf8.encode command.1 = name with
  | none => .error (if isHelp name arguments then .help else .refused)
  | some (_, grammar, toCommand) => do
    let words ← Words.read grammar arguments
    return .run (verbose || words.verbose) (← toCommand words)

/-- Takes the letters of short flags before the command. -/
def leadingFlags (verbose : Bool) : Bytes → Except Stop Bool
  | [] => .ok verbose
  | flag :: rest =>
    if flag = 'v'.toUInt8 ∧ !verbose then leadingFlags true rest
    else if flag = 'V'.toUInt8 then .error .version
    else if flag = 'h'.toUInt8 then .error .help
    else .error .refused

/-- Takes a flag before the command. -/
def leadingFlag (verbose : Bool) (body : Bytes) : Except Stop Bool :=
  match body with
  | first :: _ =>
    if first ≠ dash then leadingFlags verbose body
    else if body = Utf8.encode "-verbose" ∧ !verbose then .ok true
    else if body = Utf8.encode "-version" then .error .version
    else if body = Utf8.encode "-help" then .error .help
    else .error .refused
  | [] => .error .refused

def readAll (verbose : Bool) : List Bytes → Except Stop Invocation
  | [] => .error .refused
  | word :: rest =>
    if word.head? = some dash then
      match leadingFlag verbose word.tail with
      | .ok verbose => readAll verbose rest
      | .error stop => .error stop
    else readCommand verbose word rest

/-- What the arguments ask for, if they are fit. -/
def parse (arguments : List Bytes) : Option Invocation :=
  match readAll false arguments with
  | .ok invocation => some invocation
  | .error .version => some .version
  | .error .help => some .help
  | .error .refused => none

end Arguments

end LaunchDist
