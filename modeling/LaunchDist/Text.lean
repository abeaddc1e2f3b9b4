/-!
# Text

File contents, entry names and arguments are octets, which need not be text. One scanner reads
them as UTF-8: every maximal ill-formed run stands for one unreadable character, so the same scan
serves the strict reading and the one that shows a replacement character. Blank characters are
those of the Unicode property `White_Space`.
-/
namespace LaunchDist

abbrev Bytes := List UInt8

namespace Utf8

def encode (s : String) : Bytes :=
  s.toList.flatMap String.utf8EncodeChar

/-- A character begun: the bits read, the octets still due, and the least and greatest value that
the next of them may take. -/
structure Pending where
  bits : Nat
  due : Nat
  low : Nat
  high : Nat
  deriving DecidableEq, Repr

/-- What an octet opens when no character is pending; `none` if no character starts with it. -/
def opening? (b : Nat) : Option Pending :=
  if 0xC2 ≤ b ∧ b ≤ 0xDF then some ⟨b - 0xC0, 1, 0x80, 0xBF⟩
  else if b = 0xE0 then some ⟨0, 2, 0xA0, 0xBF⟩
  else if b = 0xED then some ⟨0xD, 2, 0x80, 0x9F⟩
  else if 0xE1 ≤ b ∧ b ≤ 0xEF then some ⟨b - 0xE0, 2, 0x80, 0xBF⟩
  else if b = 0xF0 then some ⟨0, 3, 0x90, 0xBF⟩
  else if 0xF1 ≤ b ∧ b ≤ 0xF3 then some ⟨b - 0xF0, 3, 0x80, 0xBF⟩
  else if b = 0xF4 then some ⟨4, 3, 0x80, 0x8F⟩
  else none

/-- The characters read from a pending state, `none` for each maximal ill-formed run. -/
def scanFrom : Option Pending → Bytes → List (Option Char)
  | none, [] => []
  | some _, [] => [none]
  | none, b :: rest =>
    if b < 0x80 then some (Char.ofNat b.toNat) :: scanFrom none rest
    else match opening? b.toNat with
      | none => none :: scanFrom none rest
      | some p => scanFrom (some p) rest
  | some p, b :: rest =>
    if p.low ≤ b.toNat ∧ b.toNat ≤ p.high then
      let bits := p.bits * 64 + (b.toNat - 0x80)
      if p.due ≤ 1 then some (Char.ofNat bits) :: scanFrom none rest
      else scanFrom (some ⟨bits, p.due - 1, 0x80, 0xBF⟩) rest
    else if b < 0x80 then none :: some (Char.ofNat b.toNat) :: scanFrom none rest
    else match opening? b.toNat with
      | none => none :: none :: scanFrom none rest
      | some q => none :: scanFrom (some q) rest

def scan (bytes : Bytes) : List (Option Char) :=
  scanFrom none bytes

/-- The text that the octets encode, if they encode one. -/
def decode? (bytes : Bytes) : Option String :=
  ((scan bytes).mapM id).map String.ofList

/-- The octets as text to show, each ill-formed run being one replacement character. -/
def decodeLossy (bytes : Bytes) : String :=
  String.ofList ((scan bytes).map (·.getD '\ufffd'))

end Utf8

namespace Text

def isBlank (c : Char) : Bool :=
  let n := c.toNat
  (0x9 ≤ n && n ≤ 0xD) || n = 0x20 || n = 0x85 || n = 0xA0 || n = 0x1680 ||
  (0x2000 ≤ n && n ≤ 0x200A) || n = 0x2028 || n = 0x2029 || n = 0x202F || n = 0x205F || n = 0x3000

/-- The text between its first and its last character that is not blank. -/
def trim (s : String) : String :=
  String.ofList ((s.toList.dropWhile isBlank).reverse.dropWhile isBlank).reverse

end Text

end LaunchDist
