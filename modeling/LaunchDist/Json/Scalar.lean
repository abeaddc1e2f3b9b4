import LaunchDist.Json.Fault
/-!
# Scalars

Reading words, strings and numbers, for their value or only to pass over them. A string that is
passed over may hold escapes of lone surrogates, and a number any magnitude.
-/
namespace LaunchDist.Json

def isSpace (c : Char) : Bool :=
  c = ' ' || c = '\n' || c = '\t' || c = '\r'

def skipSpace (cs : List Char) : List Char :=
  cs.dropWhile isSpace

/-- Passes over what is left of a word. -/
def skipWord : List Char → List Char → Except Fault (List Char)
  | [], cs => .ok cs
  | _ :: _, [] => .error (.before .endInValue [])
  | w :: word, c :: cs =>
    if c = w then skipWord word cs else .error (.at .expectedWord (c :: cs))

/-- The character that a one-letter escape stands for. -/
def shortEscape? : Char → Option Char
  | '"' => some '"'
  | '\\' => some '\\'
  | '/' => some '/'
  | 'b' => some '\x08'
  | 'f' => some '\x0c'
  | 'n' => some '\n'
  | 'r' => some '\r'
  | 't' => some '\t'
  | _ => none

def hexDigit? (c : Char) : Option Nat :=
  if '0' ≤ c ∧ c ≤ '9' then some (c.toNat - '0'.toNat)
  else if 'a' ≤ c ∧ c ≤ 'f' then some (c.toNat - 'a'.toNat + 10)
  else if 'A' ≤ c ∧ c ≤ 'F' then some (c.toNat - 'A'.toNat + 10)
  else none

/-- The value of four hexadecimal digits. -/
def hexValue? (a b c d : Char) : Option Nat := do
  return (((← hexDigit? a) * 16 + (← hexDigit? b)) * 16 + (← hexDigit? c)) * 16 + (← hexDigit? d)

/-- What is wrong where four hexadecimal digits should stand: too few octets for them, or others. -/
def hexFault (cs : List Char) : Fault :=
  if (octets cs).length < 4 then .before .endInString [] else ⟨.invalidEscape, cs, 4⟩

def isHighSurrogate (n : Nat) : Bool :=
  0xD800 ≤ n && n ≤ 0xDBFF

def isLowSurrogate (n : Nat) : Bool :=
  0xDC00 ≤ n && n ≤ 0xDFFF

/-- The character of a surrogate pair. -/
def pairChar (high low : Nat) : Char :=
  Char.ofNat ((high - 0xD800) * 0x400 + (low - 0xDC00) + 0x10000)

/-- A character before those of a reading. -/
def consChar (c : Char) (reading : Reading (List Char)) : Reading (List Char) :=
  reading.andThen fun cs rest => .ok (c :: cs, rest)

/-- Reads the characters of a string up to and with its closing quote. -/
def readString : List Char → Reading (List Char)
  | [] => .error (.before .endInString [])
  | '"' :: rest => .ok ([], rest)
  | '\\' :: [] => .error (.before .endInString [])
  | '\\' :: 'u' :: digits =>
    match digits with
    | a :: b :: c :: d :: rest =>
      match hexValue? a b c d with
      | none => .error (hexFault digits)
      | some n =>
        if isLowSurrogate n then .error (.before .loneSurrogate rest)
        else if isHighSurrogate n then
          match rest with
          | '\\' :: 'u' :: digits' =>
            match digits' with
            | a' :: b' :: c' :: d' :: rest' =>
              match hexValue? a' b' c' d' with
              | none => .error (hexFault digits')
              | some m =>
                if isLowSurrogate m then consChar (pairChar n m) (readString rest')
                else .error (.before .loneSurrogate rest')
            | _ => .error (hexFault digits')
          | [] | ['\\'] => .error (.before .endInString [])
          | '\\' :: rest' => .error (.at .unfinishedSurrogatePair rest')
          | rest => .error (.at .unfinishedSurrogatePair rest)
        else consChar (Char.ofNat n) (readString rest)
    | _ => .error (hexFault digits)
  | '\\' :: e :: rest =>
    match shortEscape? e with
    | some c => consChar c (readString rest)
    | none => .error (.at .invalidEscape (e :: rest))
  | c :: rest =>
    if c < ' ' then .error (.at .controlCharacter (c :: rest))
    else consChar c (readString rest)

/-- Passes over a string up to and with its closing quote. -/
def skipString : List Char → Except Fault (List Char)
  | [] => .error (.before .endInString [])
  | '"' :: rest => .ok rest
  | '\\' :: [] => .error (.before .endInString [])
  | '\\' :: 'u' :: digits =>
    match digits with
    | a :: b :: c :: d :: rest =>
      match hexValue? a b c d with
      | none => .error (hexFault digits)
      | some _ => skipString rest
    | _ => .error (hexFault digits)
  | '\\' :: e :: rest =>
    match shortEscape? e with
    | some _ => skipString rest
    | none => .error (.at .invalidEscape (e :: rest))
  | c :: rest =>
    if c < ' ' then .error (.before .controlCharacter (c :: rest))
    else skipString rest

def digit? (c : Char) : Option Nat :=
  if '0' ≤ c ∧ c ≤ '9' then some (c.toNat - '0'.toNat) else none

def isDigit (c : Char) : Bool :=
  (digit? c).isSome

def isExponentMark (c : Char) : Bool :=
  c = 'e' || c = 'E'

/-- Takes digits to a number as long as it stays within a bound. -/
def absorb (bound : Nat) : Nat → List Char → Nat × List Char
  | value, [] => (value, [])
  | value, c :: rest =>
    match digit? c with
    | some d =>
      if value * 10 + d ≤ bound then absorb bound (value * 10 + d) rest else (value, c :: rest)
    | none => (value, c :: rest)

/-- The greatest exponent that is told from greater ones. -/
def maxExponent : Nat := UInt32.size / 2 - 1

/-- The floating-point number `digits * 10 ^ exponent`, at the end of its text. -/
def floatAt (isNegative : Bool) (digits : Nat) (exponent : Int) (rest : List Char) :
    Reading Number :=
  match Number.scale? digits exponent with
  | some magnitude => .ok (.float isNegative magnitude, rest)
  | none => .error (.before .numberOutOfRange rest)

/-- Reads an exponent after its mark; the digits before it count from `10 ^ exponent`. -/
def readExponent (isNegative : Bool) (digits : Nat) (exponent : Int) (cs : List Char) :
    Reading Number :=
  let (grows, cs) := match cs with
    | '+' :: rest => (true, rest)
    | '-' :: rest => (false, rest)
    | cs => (true, cs)
  match cs with
  | [] => .error (.before .endInValue [])
  | c :: rest => match digit? c with
    | none => .error (.at .invalidNumber (c :: rest))
    | some first =>
      match absorb maxExponent first rest with
      | (power, rest) =>
        if (rest.head?.map isDigit).getD false then
          if digits ≠ 0 ∧ grows then .error (.at .numberOutOfRange rest)
          else .ok (.float isNegative .zero, rest.dropWhile isDigit)
        else floatAt isNegative digits (if grows then exponent + power else exponent - power) rest

/-- What comes after the digits of a floating-point number: an exponent, or nothing. -/
def readFloatEnd (isNegative : Bool) (digits : Nat) (exponent : Int) : List Char → Reading Number
  | [] => floatAt isNegative digits exponent []
  | c :: rest =>
    if isExponentMark c then readExponent isNegative digits exponent rest
    else floatAt isNegative digits exponent (c :: rest)

/-- Reads a fraction after its point. Digits that do not fit are passed over. -/
def readFraction (isNegative : Bool) (digits : Nat) (exponent : Int) (cs : List Char) :
    Reading Number :=
  match absorb Number.maxUnsigned digits cs with
  | (digits, rest) =>
    let taken := cs.length - rest.length
    let exponent := exponent - taken
    if (rest.head?.map isDigit).getD false then
      readFloatEnd isNegative digits exponent (rest.dropWhile isDigit)
    else if taken = 0 then
      .error (.at (if rest = [] then .endInValue else .invalidNumber) rest)
    else readFloatEnd isNegative digits exponent rest

/-- What comes after the whole digits of a number. Those that do not fit have been passed over and
count in the exponent. -/
def readNumberEnd (isNegative : Bool) (digits : Nat) (beyond : Option Nat) :
    List Char → Reading Number
  | '.' :: rest => readFraction isNegative digits (beyond.getD 0) rest
  | cs =>
    match beyond, (cs.head?.map isExponentMark).getD false with
    | none, false => .ok (Number.ofDigits isNegative digits, cs)
    | _, _ => readFloatEnd isNegative digits (beyond.getD 0) cs

/-- Reads a number after its sign. -/
def readNumber (isNegative : Bool) : List Char → Reading Number
  | [] => .error (.before .endInValue [])
  | '0' :: rest =>
    if (rest.head?.map isDigit).getD false then .error (.at .invalidNumber rest)
    else readNumberEnd isNegative 0 none rest
  | c :: rest => match digit? c with
    | none => .error (.at .invalidNumber (c :: rest))
    | some first =>
      match absorb Number.maxUnsigned first rest with
      | (digits, rest) =>
        let beyond := rest.takeWhile isDigit
        readNumberEnd isNegative digits (if beyond = [] then none else some beyond.length)
          (rest.dropWhile isDigit)

/-- Passes over an exponent after its mark. -/
def skipExponent (cs : List Char) : Except Fault (List Char) :=
  let cs := match cs with
    | '+' :: rest | '-' :: rest => rest
    | cs => cs
  match cs with
  | [] => .error (.before .invalidNumber [])
  | c :: rest =>
    if isDigit c then .ok (rest.dropWhile isDigit) else .error (.at .invalidNumber (c :: rest))

/-- Passes over what may come after the digits of a number: an exponent, or nothing. -/
def skipNumberEnd : List Char → Except Fault (List Char)
  | [] => .ok []
  | c :: rest => if isExponentMark c then skipExponent rest else .ok (c :: rest)

/-- Passes over a fraction and an exponent, where there are any. -/
def skipFraction : List Char → Except Fault (List Char)
  | '.' :: rest =>
    if (rest.head?.map isDigit).getD false then skipNumberEnd (rest.dropWhile isDigit)
    else .error (.at .invalidNumber rest)
  | cs => skipNumberEnd cs

/-- Passes over a number after its sign. -/
def skipNumber : List Char → Except Fault (List Char)
  | [] => .error (.before .invalidNumber [])
  | '0' :: rest =>
    if (rest.head?.map isDigit).getD false then .error (.at .invalidNumber rest)
    else skipFraction rest
  | c :: rest =>
    if isDigit c then skipFraction (rest.dropWhile isDigit)
    else .error (.at .invalidNumber (c :: rest))

end LaunchDist.Json
