import Mathlib.Data.List.Basic
/-!
# The grammar of documents

Values and the texts that they may be written as. A text may have blanks around each value and around
the keys of objects, write a character in several ways, and repeat a key.
-/
namespace LaunchDist.Json

/-- At least one decimal digit. -/
structure Digits where
  chars : List Char
  ne_nil : chars ≠ []
  isDigit : ∀ c ∈ chars, c.isDigit

structure Exponent where
  mark : Char
  mark_eq : mark = 'e' ∨ mark = 'E'
  sign : List Char
  sign_eq : sign = [] ∨ sign = ['+'] ∨ sign = ['-']
  digits : Digits

/-- A number as it is written. -/
structure Numeral where
  isNegative : Bool := false
  /-- The digits before the point, which have no zeros in front. -/
  whole : Nat
  fraction? : Option Digits := none
  exponent? : Option Exponent := none

namespace Numeral

/-- A number written in digits alone. -/
def natural (n : Nat) : Numeral where
  whole := n

def fractionChars : Option Digits → List Char
  | some digits => '.' :: digits.chars
  | none => []

def exponentChars : Option Exponent → List Char
  | some e => e.mark :: (e.sign ++ e.digits.chars)
  | none => []

/-- What comes after the whole digits. -/
def tail (n : Numeral) : List Char :=
  fractionChars n.fraction? ++ exponentChars n.exponent?

/-- The number without its sign. -/
def magnitude (n : Numeral) : List Char :=
  Nat.toDigits 10 n.whole ++ n.tail

def chars (n : Numeral) : List Char :=
  if n.isNegative then '-' :: n.magnitude else n.magnitude

end Numeral

/-- The letters of escapes, with the characters that they stand for. -/
def shortEscapes : List (Char × Char) :=
  [('"', '"'), ('\\', '\\'), ('/', '/'), ('b', '\x08'), ('f', '\x0c'), ('n', '\n'), ('r', '\r'),
    ('t', '\t')]

/-- Whether a character is the hexadecimal digit of a number, in either case. -/
def IsHexDigit (n : Nat) (c : Char) : Prop :=
  n < 16 ∧ (c = Nat.digitChar n ∨ c = (Nat.digitChar n).toUpper)

/-- Four hexadecimal digits. -/
inductive HexCode : Nat → List Char → Prop
  | mk {a b c d : Nat} {x y z w : Char} (ha : IsHexDigit a x) (hb : IsHexDigit b y)
      (hc : IsHexDigit c z) (hd : IsHexDigit d w) :
      HexCode (((a * 16 + b) * 16 + c) * 16 + d) [x, y, z, w]

/-- The ways to write a character between quotes. -/
inductive Spells : Char → List Char → Prop
  | plain {c : Char} (hc : ¬ c < ' ') (hquote : c ≠ '"') (hslash : c ≠ '\\') : Spells c [c]
  | short {e c : Char} (h : (e, c) ∈ shortEscapes) : Spells c ['\\', e]
  | code {c : Char} {cs : List Char} (h : HexCode c.toNat cs) : Spells c ('\\' :: 'u' :: cs)
  /-- A character beyond the first plane, as a surrogate pair. -/
  | pair {c : Char} {high low : Nat} {cs ds : List Char} (hhigh : 0xD800 ≤ high ∧ high ≤ 0xDBFF)
      (hlow : 0xDC00 ≤ low ∧ low ≤ 0xDFFF)
      (hc : c.toNat = (high - 0xD800) * 0x400 + (low - 0xDC00) + 0x10000)
      (hcs : HexCode high cs) (hds : HexCode low ds) :
      Spells c ('\\' :: 'u' :: (cs ++ '\\' :: 'u' :: ds))

inductive SpellsAll : List Char → List Char → Prop
  | nil : SpellsAll [] []
  | cons {c : Char} {cs xs ys : List Char} (hc : Spells c xs) (hcs : SpellsAll cs ys) :
      SpellsAll (c :: cs) (xs ++ ys)

/-- A text between quotes. -/
inductive Quotes (s : String) : List Char → Prop
  | mk {xs : List Char} (h : SpellsAll s.toList xs) : Quotes s ('"' :: (xs ++ ['"']))

inductive Value where
  | null
  | boolean (b : Bool)
  | number (n : Numeral)
  | text (s : String)
  | list (items : List Value)
  | object (members : List (String × Value))

/-- Whether a text consists of blanks alone. -/
def Blank (cs : List Char) : Prop :=
  ∀ c ∈ cs, c = ' ' ∨ c = '\n' ∨ c = '\r' ∨ c = '\t'

/-- What a part of a document stands for. -/
inductive Phrase where
  | value (v : Value)
  /-- A value with blanks around it. -/
  | element (v : Value)
  | elements (vs : List Value)
  | member (key : String) (v : Value)
  | members (ms : List (String × Value))

/-- The texts that a phrase may be written as. -/
inductive Written : Phrase → List Char → Prop
  | null : Written (.value .null) ['n', 'u', 'l', 'l']
  | true : Written (.value (.boolean true)) ['t', 'r', 'u', 'e']
  | false : Written (.value (.boolean false)) ['f', 'a', 'l', 's', 'e']
  | number (n : Numeral) : Written (.value (.number n)) n.chars
  | text {s : String} {cs : List Char} (h : Quotes s cs) : Written (.value (.text s)) cs
  | emptyList {blank : List Char} (hblank : Blank blank) :
      Written (.value (.list [])) ('[' :: (blank ++ [']']))
  | list {vs : List Value} {cs : List Char} (h : Written (.elements vs) cs) :
      Written (.value (.list vs)) ('[' :: (cs ++ [']']))
  | emptyObject {blank : List Char} (hblank : Blank blank) :
      Written (.value (.object [])) ('\x7b' :: (blank ++ ['\x7d']))
  | object {ms : List (String × Value)} {cs : List Char} (h : Written (.members ms) cs) :
      Written (.value (.object ms)) ('\x7b' :: (cs ++ ['\x7d']))
  | element {v : Value} {before cs after : List Char} (hbefore : Blank before)
      (h : Written (.value v) cs) (hafter : Blank after) :
      Written (.element v) (before ++ (cs ++ after))
  | lastElement {v : Value} {cs : List Char} (h : Written (.element v) cs) :
      Written (.elements [v]) cs
  | elements {v : Value} {vs : List Value} {cs ds : List Char} (h : Written (.element v) cs)
      (hrest : Written (.elements vs) ds) : Written (.elements (v :: vs)) (cs ++ ',' :: ds)
  | member {key : String} {v : Value} {before quoted after cs : List Char} (hbefore : Blank before)
      (hkey : Quotes key quoted) (hafter : Blank after) (h : Written (.element v) cs) :
      Written (.member key v) (before ++ (quoted ++ (after ++ ':' :: cs)))
  | lastMember {key : String} {v : Value} {cs : List Char} (h : Written (.member key v) cs) :
      Written (.members [(key, v)]) cs
  | members {key : String} {v : Value} {ms : List (String × Value)} {cs ds : List Char}
      (h : Written (.member key v) cs) (hrest : Written (.members ms) ds) :
      Written (.members ((key, v) :: ms)) (cs ++ ',' :: ds)

end LaunchDist.Json
