import LaunchDist.Decimal
/-!
# Numbers as values

A number is a whole number that fits 64 bits, or else a floating-point value. A floating-point value
is the digits, as a whole number below `2 ^ 64`, times or over a power of ten that is itself rounded.
-/
namespace LaunchDist.Json

inductive Number where
  | unsigned (value : Nat)
  /-- The whole number `-magnitude`, not zero. -/
  | negative (magnitude : Nat)
  | float (isNegative : Bool) (magnitude : Binary64)
  deriving DecidableEq, Repr

namespace Number

def describe : Number → String
  | .unsigned value => "integer `" ++ toString value ++ "`"
  | .negative magnitude => "integer `-" ++ toString magnitude ++ "`"
  | .float isNegative magnitude =>
    "floating point `" ++ (if isNegative then "-" else "") ++ magnitude.toText ++ "`"

/-- The greatest value of an unsigned word. -/
def maxUnsigned : Nat := UInt64.size - 1

/-- The greatest magnitude of a negative word. -/
def maxNegative : Nat := UInt64.size / 2

/-- Digits without a fraction or an exponent. -/
def ofDigits (isNegative : Bool) (digits : Nat) : Number :=
  if !isNegative then .unsigned digits
  else if digits = 0 ∨ maxNegative < digits then
    .float true ((Binary64.ofNat? digits).getD .zero)
  else .negative digits

/-- The greatest power of ten that is finite. -/
def maxPower : Nat := 308

def power? (k : Nat) : Option Binary64 :=
  Binary64.ofNat? (Nat.pow 10 k)

/-- The magnitude over `10 ^ k`, in quotients by at most `10 ^ maxPower` each. -/
def shrink? (x : Binary64) (k : Nat) : Option Binary64 :=
  if k ≤ maxPower then (power? k).bind x.div?
  else if x.significand = 0 then some x
  else (power? maxPower).bind fun p => (x.div? p).bind fun y => shrink? y (k - maxPower)
termination_by k
decreasing_by
  have : 0 < maxPower := by decide
  omega

/-- The magnitude `digits * 10 ^ exponent`; `none` if it is too great. -/
def scale? (digits : Nat) (exponent : Int) : Option Binary64 :=
  (Binary64.ofNat? digits).bind fun x =>
    if exponent < 0 then shrink? x exponent.natAbs
    else if exponent.natAbs ≤ maxPower then (power? exponent.natAbs).bind x.mul?
    else if digits = 0 then some x
    else none

end Number

end LaunchDist.Json
