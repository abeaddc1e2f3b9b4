import LaunchDist.Json.Scalar
/-!
# Reading values of a known type

Readers of texts, words, lists and records. A record is an object whose members may come in any
order, or a list of its fields in their order; the record itself says what to do with a member. A
value that nobody asks for is read for its syntax only. Values nest as deep and hold as many items
as the text allows; since each of them takes a part of the text, its length bounds both.
-/
namespace LaunchDist.Json

/-- Passes over the items of a list up to and with its closing bracket. -/
def skipItems (skipItem : List Char → Except Fault (List Char)) :
    Nat → List Char → Except Fault (List Char)
  | 0, cs => .error (.at .expectedValue cs)
  | limit + 1, cs =>
    match skipItem cs with
    | .error fault => .error fault
    | .ok rest => match skipSpace rest with
      | [] => .error (.at .endInList [])
      | ',' :: rest => skipItems skipItem limit rest
      | ']' :: rest => .ok rest
      | rest => .error (.at .expectedListCommaOrEnd rest)

/-- Passes over the separator between a key and its value. -/
def skipColon (cs : List Char) : Except Fault (List Char) :=
  match skipSpace cs with
  | [] => .error (.at .endInObject [])
  | ':' :: rest => .ok rest
  | rest => .error (.at .expectedColon rest)

/-- Passes over the key of a member and the separator after it. -/
def skipKey (cs : List Char) : Except Fault (List Char) :=
  match skipSpace cs with
  | [] => .error (.at .endInObject [])
  | '"' :: rest => match skipString rest with
    | .error fault => .error fault
    | .ok rest => skipColon rest
  | rest => .error (.at .keyNotString rest)

/-- Passes over the members of an object up to and with its closing brace. -/
def skipMembers (skipItem : List Char → Except Fault (List Char)) :
    Nat → List Char → Except Fault (List Char)
  | 0, cs => .error (.at .expectedValue cs)
  | limit + 1, cs =>
    match skipKey cs with
    | .error fault => .error fault
    | .ok rest => match skipItem rest with
      | .error fault => .error fault
      | .ok rest => match skipSpace rest with
        | [] => .error (.at .endInObject [])
        | ',' :: rest => skipMembers skipItem limit rest
        | '\x7d' :: rest => .ok rest
        | rest => .error (.at .expectedObjectCommaOrEnd rest)

/-- Passes over a value that nests no deeper than so many levels, and holds no more items in one. -/
def skipNested : Nat → List Char → Except Fault (List Char)
  | 0, cs => .error (.at .expectedValue cs)
  | depth + 1, cs =>
    match skipSpace cs with
    | [] => .error (.at .endInValue [])
    | 'n' :: rest => skipWord ['u', 'l', 'l'] rest
    | 't' :: rest => skipWord ['r', 'u', 'e'] rest
    | 'f' :: rest => skipWord ['a', 'l', 's', 'e'] rest
    | '"' :: rest => skipString rest
    | '-' :: rest => skipNumber rest
    | '[' :: rest => match skipSpace rest with
      | [] => .error (.at .endInList [])
      | ']' :: rest => .ok rest
      | rest => skipItems (skipNested depth) depth rest
    | '\x7b' :: rest => match skipSpace rest with
      | [] => .error (.at .endInObject [])
      | '\x7d' :: rest => .ok rest
      | rest => skipMembers (skipNested depth) depth rest
    | c :: rest =>
      if isDigit c then skipNumber (c :: rest) else .error (.at .expectedValue (c :: rest))

/-- Passes over a value. -/
def skipValue (cs : List Char) : Except Fault (List Char) :=
  skipNested (cs.length + 1) cs

/-- What is wrong with a value that starts here and is not of the expected type. A scalar is read
first, and a list or an object is not. -/
def mismatch (expected : String) (cs : List Char) : Fault :=
  let found (kind : Found) (rest : List Char) : Fault := .before (.wrongType kind expected) rest
  let word (kind : Found) : Except Fault (List Char) → Fault
    | .ok rest => found kind rest
    | .error fault => fault
  let number : Reading Number → Fault
    | .ok (n, rest) => found (.number n) rest
    | .error fault => fault
  match cs with
  | [] => .at .endInValue []
  | 'n' :: rest => word .null (skipWord ['u', 'l', 'l'] rest)
  | 't' :: rest => word (.boolean true) (skipWord ['r', 'u', 'e'] rest)
  | 'f' :: rest => word (.boolean false) (skipWord ['a', 'l', 's', 'e'] rest)
  | '"' :: rest => match readString rest with
    | .ok (text, rest) => found (.text (String.ofList text)) rest
    | .error fault => fault
  | '-' :: rest => number (readNumber true rest)
  | '[' :: _ => found .sequence cs
  | '\x7b' :: _ => found .map cs
  | c :: _ => if isDigit c then number (readNumber false cs) else .at .expectedValue cs

/-- Reads a text. -/
def readText (cs : List Char) : Reading String :=
  match skipSpace cs with
  | '"' :: rest => (readString rest).andThen fun text rest => .ok (String.ofList text, rest)
  | cs => .error (mismatch "a string" cs)

/-- Takes a number for an unsigned word of 32 bits. -/
def toWord : Reading Number → Reading UInt32
  | .error fault => .error fault
  | .ok (.unsigned n, rest) =>
    if n < UInt32.size then .ok (UInt32.ofNat n, rest)
    else .error (.before (.outOfRange (.number (.unsigned n)) "u32") rest)
  | .ok (.negative n, rest) => .error (.before (.outOfRange (.number (.negative n)) "u32") rest)
  | .ok (number, rest) => .error (.before (.wrongType (.number number) "u32") rest)

/-- Reads an unsigned word of 32 bits. -/
def readWord (cs : List Char) : Reading UInt32 :=
  match skipSpace cs with
  | '-' :: rest => toWord (readNumber true rest)
  | cs =>
    if (cs.head?.map isDigit).getD false then toWord (readNumber false cs)
    else .error (mismatch "u32" cs)

/-- Reads the items of a list up to and with its closing bracket. -/
def readItems {α : Type} (readItem : List Char → Reading α) : Nat → List Char → Reading (List α)
  | 0, cs => .error (.at .expectedValue cs)
  | limit + 1, cs =>
    (readItem cs).andThen fun item rest =>
      match skipSpace rest with
      | [] => .error (.at .endInList [])
      | ']' :: rest => .ok ([item], rest)
      | ',' :: rest => match skipSpace rest with
        | [] => .error (.at .endInValue [])
        | ']' :: rest => .error (.at .trailingComma (']' :: rest))
        | rest => (readItems readItem limit rest).andThen fun items rest =>
          .ok (item :: items, rest)
      | rest => .error (.at .expectedListCommaOrEnd rest)

/-- Reads a list. -/
def readList {α : Type} (readItem : List Char → Reading α) (cs : List Char) :
    Reading (List α) :=
  match skipSpace cs with
  | '[' :: rest => match skipSpace rest with
    | [] => .error (.at .endInList [])
    | ']' :: rest => .ok ([], rest)
    | rest => readItems readItem rest.length rest
  | cs => .error (mismatch "a sequence" cs)

/-- A kind of record: its name in complaints, the state of reading it, and how it is filled. -/
structure Record (σ α : Type) where
  name : String
  start : σ
  /-- Reads what comes after a key. -/
  member : σ → String → List Char → Reading σ
  /-- The record once all members are read. -/
  finish : σ → Except Cause α
  /-- Reads the fields from a list, after its opening bracket and up to its closing one. -/
  fields : List Char → Reading α

/-- A fault that is found in a record, but placed where reading of the record ends: before what
comes next, or behind the closing mark if that is next. -/
def placedAtEnd (closing : Char) (cause : Cause) (cs : List Char) : Fault :=
  match skipSpace cs with
  | [] => .before cause []
  | c :: rest => .before cause (if c = closing then rest else c :: rest)

/-- Passes over the separator after a key that has not been read before. -/
def skipFreshColon (isRepeated : Bool) (key : String) (cs : List Char) :
    Except Fault (List Char) :=
  if isRepeated then .error (placedAtEnd '\x7d' (.duplicateField key) cs) else skipColon cs

/-- Reads the members of an object from the first key on, whose opening quote is passed. -/
def readMembers {σ : Type} (member : σ → String → List Char → Reading σ) :
    Nat → σ → List Char → Reading σ
  | 0, _, cs => .error (.at .expectedValue cs)
  | limit + 1, state, cs =>
    (readString cs).andThen fun key rest =>
      (member state (String.ofList key) rest).andThen fun state rest =>
        match skipSpace rest with
        | [] => .error (.at .endInObject [])
        | '\x7d' :: rest => .ok (state, rest)
        | ',' :: rest => match skipSpace rest with
          | [] => .error (.at .endInValue [])
          | '"' :: rest => readMembers member limit state rest
          | '\x7d' :: rest => .error (.at .trailingComma ('\x7d' :: rest))
          | rest => .error (.at .keyNotString rest)
        | rest => .error (.at .expectedObjectCommaOrEnd rest)

/-- Reads all members of an object after its opening brace. -/
def readObject {σ : Type} (member : σ → String → List Char → Reading σ) (start : σ)
    (cs : List Char) : Reading σ :=
  match skipSpace cs with
  | [] => .error (.at .endInObject [])
  | '\x7d' :: rest => .ok (start, rest)
  | '"' :: rest => readMembers member (rest.length + 1) start rest
  | rest => .error (.at .keyNotString rest)

/-- Reads one field of a record that is written as a list, the number of those before it being
given; the record is too short if the list ends here. -/
def readField {α : Type} (position : Nat) (expected : String) (readItem : List Char → Reading α)
    (cs : List Char) : Reading α :=
  match skipSpace cs with
  | [] => .error (.at .endInList [])
  | ']' :: rest => .error (.before (.wrongLength position expected) rest)
  | c :: rest =>
    if position = 0 then readItem (c :: rest)
    else if c = ',' then
      match skipSpace rest with
      | [] => .error (.at .endInValue [])
      | ']' :: rest => .error (.at .trailingComma (']' :: rest))
      | rest => readItem rest
    else .error (.at .expectedListCommaOrEnd (c :: rest))

/-- Passes over the closing bracket of a record that is written as a list. -/
def skipFieldsEnd (cs : List Char) : Except Fault (List Char) :=
  match skipSpace cs with
  | [] => .error (.at .endInList [])
  | ']' :: rest => .ok rest
  | ',' :: rest => match skipSpace rest with
    | ']' :: rest => .error (.at .trailingComma (']' :: rest))
    | rest => .error (.at .trailingCharacters rest)
  | rest => .error (.at .trailingCharacters rest)

/-- Reads a record. -/
def readRecord {σ α : Type} (record : Record σ α) (cs : List Char) : Reading α :=
  match skipSpace cs with
  | '\x7b' :: rest =>
    (readObject record.member record.start rest).andThen fun state rest =>
      match record.finish state with
      | .ok value => .ok (value, rest)
      | .error cause => .error (.before cause rest)
  | '[' :: rest =>
    (record.fields rest).andThen fun value rest =>
      match skipFieldsEnd rest with
      | .ok rest => .ok (value, rest)
      | .error fault => .error fault
  | cs => .error (mismatch ("struct " ++ record.name) cs)

/-- Reads a whole document. -/
def readDocument {α : Type} (readValue : List Char → Reading α) (text : String) :
    Except PlacedFault α :=
  match readValue text.toList with
  | .error fault => .error (fault.place text.toList)
  | .ok (value, rest) => match skipSpace rest with
    | [] => .ok value
    | rest => .error ((Fault.at .trailingCharacters rest).place text.toList)

end LaunchDist.Json
