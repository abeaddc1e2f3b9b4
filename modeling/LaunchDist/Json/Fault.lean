import LaunchDist.Text
import LaunchDist.Text.Quoted
import LaunchDist.Json.Number
/-!
# Faults in a document

What a reader finds wrong, and where. A reader knows only what is left of the text, so a fault keeps
that; the line and the column, which counts octets, are worked out when it is reported.
-/
namespace LaunchDist.Json

/-- A value as named in a complaint about its type. -/
inductive Found where
  | null
  | boolean (value : Bool)
  | number (value : Number)
  | text (value : String)
  | sequence
  | map
  deriving DecidableEq, Repr

inductive Cause where
  | endInValue
  | endInString
  | endInList
  | endInObject
  | expectedWord
  | expectedValue
  | expectedColon
  | expectedListCommaOrEnd
  | expectedObjectCommaOrEnd
  | keyNotString
  | trailingComma
  | trailingCharacters
  | invalidNumber
  | numberOutOfRange
  | invalidEscape
  | controlCharacter
  | loneSurrogate
  | unfinishedSurrogatePair
  | wrongType (found : Found) (expected : String)
  | outOfRange (found : Found) (expected : String)
  | wrongLength (found : Nat) (expected : String)
  | missingField (name : String)
  | duplicateField (name : String)
  deriving DecidableEq, Repr

def Found.describe : Found → String
  | .null => "null"
  | .boolean value => "boolean `" ++ toString value ++ "`"
  | .number value => value.describe
  | .text value => "string " ++ Text.quote value
  | .sequence => "sequence"
  | .map => "map"

def Cause.message : Cause → String
  | .endInValue => "EOF while parsing a value"
  | .endInString => "EOF while parsing a string"
  | .endInList => "EOF while parsing a list"
  | .endInObject => "EOF while parsing an object"
  | .expectedWord => "expected ident"
  | .expectedValue => "expected value"
  | .expectedColon => "expected `:`"
  | .expectedListCommaOrEnd => "expected `,` or `]`"
  | .expectedObjectCommaOrEnd => "expected `,` or `\x7d`"
  | .keyNotString => "key must be a string"
  | .trailingComma => "trailing comma"
  | .trailingCharacters => "trailing characters"
  | .invalidNumber => "invalid number"
  | .numberOutOfRange => "number out of range"
  | .invalidEscape => "invalid escape"
  | .controlCharacter => "control character (\\u0000-\\u001F) found while parsing a string"
  | .loneSurrogate => "lone leading surrogate in hex escape"
  | .unfinishedSurrogatePair => "unexpected end of hex escape"
  | .wrongType found expected => "invalid type: " ++ found.describe ++ ", expected " ++ expected
  | .outOfRange found expected => "invalid value: " ++ found.describe ++ ", expected " ++ expected
  | .wrongLength found expected =>
    "invalid length " ++ toString found ++ ", expected " ++ expected
  | .missingField name => "missing field `" ++ name ++ "`"
  | .duplicateField name => "duplicate field `" ++ name ++ "`"

/-- A cause, with the text that was left when it was found and the number of octets of that text
that had been looked at. -/
structure Fault where
  cause : Cause
  rest : List Char
  ahead : Nat
  deriving DecidableEq, Repr

/-- The outcome of reading from a text: a value and what is left, or a fault. -/
abbrev Reading (α : Type) := Except Fault (α × List Char)

/-- Goes on from a value and what is left after it. -/
def Reading.andThen {α β : Type} (reading : Reading α) (next : α → List Char → Reading β) :
    Reading β :=
  match reading with
  | .ok (value, rest) => next value rest
  | .error fault => .error fault

/-- A fault just before what is left. -/
def Fault.before (cause : Cause) (rest : List Char) : Fault :=
  ⟨cause, rest, 0⟩

/-- A fault at the first octet of what is left. -/
def Fault.at (cause : Cause) (rest : List Char) : Fault :=
  ⟨cause, rest, 1⟩

/-- A fault that has its place in a document. -/
structure PlacedFault where
  cause : Cause
  line : Nat
  column : Nat
  deriving DecidableEq, Repr

def octets (cs : List Char) : Bytes :=
  cs.flatMap String.utf8EncodeChar

/-- Lines are counted from one; the column is the number of octets of the line that were read. -/
def Fault.place (fault : Fault) (text : List Char) : PlacedFault :=
  let all := octets text
  let seen := all.take (all.length - (octets fault.rest).length + fault.ahead)
  let newline : UInt8 := 10
  ⟨fault.cause, seen.count newline + 1, (seen.reverse.takeWhile (· ≠ newline)).length⟩

def PlacedFault.message (fault : PlacedFault) : String :=
  fault.cause.message ++ " at line " ++ toString fault.line ++ " column " ++ toString fault.column

end LaunchDist.Json
