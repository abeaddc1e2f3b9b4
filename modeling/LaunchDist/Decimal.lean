/-!
# Magnitudes in binary floating point

The finite magnitudes of the 64-bit binary format as a whole number times a power of two, with
rounding to nearest and ties to even; products and quotients are rounded from their exact value. A
magnitude is shown as the decimal with the fewest digits that lies nearer to it than to its
neighbours: on the coarsest decimal grid with a point in the rounding interval, the point nearest to
the magnitude.
-/
namespace LaunchDist

/-- The magnitude `significand * 2 ^ scale`, where `significand < 2 ^ 53` and `-1074 ≤ scale`. -/
structure Binary64 where
  significand : Nat
  scale : Int
  deriving DecidableEq, Repr

namespace Binary64

def zero : Binary64 := ⟨0, -1074⟩

private def roundHalfEven (num den : Nat) : Nat :=
  let floor := num / den
  let rest := num % den
  if den < 2 * rest ∨ (2 * rest = den ∧ floor % 2 = 1) then floor + 1 else floor

/-- The ratio `num / (den * 2 ^ scale)` as two whole numbers. -/
private def scaled (num den : Nat) (scale : Int) : Nat × Nat :=
  if 0 ≤ scale then (num, den <<< scale.toNat) else (num <<< (-scale).toNat, den)

/-- The magnitude nearest to `num / den`, or `none` if that is beyond the greatest one. -/
def ofRatio? (num den : Nat) : Option Binary64 :=
  if num = 0 then some zero
  else
    let guess : Int := (num.log2 : Int) - den.log2
    let below := scaled num den guess
    let exponent := if below.2 ≤ below.1 then guess else guess - 1
    let scale := max (-1074) (exponent - 52)
    let exact := scaled num den scale
    let significand := roundHalfEven exact.1 exact.2
    let rounded : Binary64 :=
      if significand = 1 <<< 53 then ⟨1 <<< 52, scale + 1⟩ else ⟨significand, scale⟩
    if 971 < rounded.scale then none else some rounded

def ofNat? (n : Nat) : Option Binary64 :=
  ofRatio? n 1

/-- The exact value as a ratio. -/
def ratio (x : Binary64) : Nat × Nat :=
  if 0 ≤ x.scale then (x.significand <<< x.scale.toNat, 1)
  else (x.significand, 1 <<< (-x.scale).toNat)

def mul? (x y : Binary64) : Option Binary64 :=
  ofRatio? (x.ratio.1 * y.ratio.1) (x.ratio.2 * y.ratio.2)

def div? (x y : Binary64) : Option Binary64 :=
  ofRatio? (x.ratio.1 * y.ratio.2) (x.ratio.2 * y.ratio.1)

/-- The point `digits * 10 ^ scale` of a decimal grid. -/
structure Decimal where
  digits : Nat
  scale : Int
  deriving DecidableEq, Repr

/-- The point of the grid of step `10 ^ k` that reads back as `x` and is nearest to it, if the grid
has one. In quarters of the last binary place, `x` is `4 * significand`; the interval reaches two
quarters up and two down, but only one down where the next smaller magnitude has a finer place. -/
def onGrid? (x : Binary64) (k : Int) : Option Decimal :=
  let place := x.scale - 2
  let value := 4 * x.significand
  let high := value + 2
  let low := if x.significand = 1 <<< 52 ∧ -1074 < x.scale then value - 1 else value - 2
  let point := (if 0 ≤ k then Nat.pow 10 k.toNat else 1) <<< (if place < 0 then (-place).toNat else 0)
  let quarter := (if k < 0 then Nat.pow 10 (-k).toNat else 1) <<< (if 0 ≤ place then place.toNat else 0)
  let inside (c : Nat) : Bool :=
    if x.significand % 2 = 0 then low * quarter ≤ c * point && c * point ≤ high * quarter
    else low * quarter < c * point && c * point < high * quarter
  let below := value * quarter / point
  let rest := value * quarter % point
  let downFirst := 2 * rest < point || (2 * rest = point && below % 2 = 0)
  let (first, second) := if downFirst then (below, below + 1) else (below + 1, below)
  if inside first then some ⟨first, k⟩
  else if inside second then some ⟨second, k⟩
  else none

/-- The shortest decimal that reads back as a magnitude other than zero. -/
def shortest (x : Binary64) : Decimal :=
  ((List.range 640).findSome? fun i : Nat => x.onGrid? (309 - (i : Int))).getD ⟨0, 0⟩

/-- Positional from `1e-5` up to `1e16`, with at least one digit after the point; beyond, one digit
before the point, if more than one at all, and a signed exponent. -/
def toText (x : Binary64) : String :=
  if x.significand = 0 then "0.0"
  else
    let decimal := x.shortest
    let digits := Nat.toDigits 10 decimal.digits
    let exponent : Int := decimal.scale + digits.length - 1
    let zeros (n : Int) : List Char := List.replicate n.toNat '0'
    if -5 ≤ exponent ∧ exponent ≤ 15 then
      if 0 ≤ decimal.scale then String.ofList (digits ++ zeros decimal.scale) ++ ".0"
      else if 0 ≤ exponent then
        String.ofList (digits.take (exponent.toNat + 1)) ++ "." ++
          String.ofList (digits.drop (exponent.toNat + 1))
      else "0." ++ String.ofList (zeros (-exponent - 1) ++ digits)
    else
      let fraction := if digits.length = 1 then [] else '.' :: digits.drop 1
      let sign := if exponent < 0 then "-" else "+"
      String.ofList (digits.take 1 ++ fraction) ++ "e" ++ sign ++ toString exponent.natAbs

end Binary64

end LaunchDist
