import Numeral.Binary64.Basic
import Numeral.Decimal.Literal

/-!
# Rounding to the nearest double

The magnitude nearest to a fraction; of two equally near ones the one with the even significand.
A fraction that rounds above the greatest magnitude has none.  Decimal numbers and products with a
power of ten are rounded through the fraction that they are equal to.
-/

namespace Numeral

/-- The integer nearest to `a / b`, and the even one of two. -/
def roundHalfEven (a b : Nat) : Nat :=
  let q := a / b
  let r := a % b
  if 2 * r < b then q else if b < 2 * r then q + 1 else q + q % 2

namespace Magnitude

/-- The exponent that gives `num / den` 53 significant bits, or the least exponent if that is
greater.  Zero has the least exponent. -/
def exponentFor (num den : Nat) : Int :=
  if num = 0 then -1074
  else
    let k := (num.log2 : Int) - den.log2
    let below := if 0 ≤ k then num < den * pow2 k.toNat else num * pow2 (-k).toNat < den
    max (-1074) (if below then k - 53 else k - 52)

/-- The magnitude nearest to `num / den`, or none if it is too great for the format. -/
def nearest? (num den : Nat) : Option Magnitude :=
  let e := exponentFor num den
  let m := roundHalfEven (num * pow2 (-e).toNat) (den * pow2 e.toNat)
  let (m, e) := if m = pow2 53 then (pow2 52, e + 1) else (m, e)
  if h : IsMagnitude m e then some ⟨m, e, h⟩ else none

/-- The magnitude nearest to `n × 10 ^ e`, or none if it is too great for the format.  Numbers whose
first digit stands far outside the range of the format are settled by its place alone. -/
def ofDecimal? (n : Nat) (e : Int) : Option Magnitude :=
  let place := (Decimal.digitCount n : Int) + e
  if n = 0 ∨ place < -400 then some zero
  else if 400 < place then none
  else nearest? (n * pow10 e.toNat) (pow10 (-e).toNat)

end Magnitude

namespace Binary64

/-- A magnitude with its sign; none is an infinity. -/
def ofMagnitude? (negative : Bool) : Option Magnitude → Binary64
  | some x => finite negative x
  | none => infinity negative

/-- The double nearest to `± num / den`. -/
def nearest (negative : Bool) (num den : Nat) : Binary64 :=
  ofMagnitude? negative (Magnitude.nearest? num den)

/-- The double nearest to `± n × 10 ^ e`. -/
def ofDecimal (negative : Bool) (n : Nat) (e : Int) : Binary64 :=
  ofMagnitude? negative (Magnitude.ofDecimal? n e)

def ofLiteral (l : Decimal.Literal) : Binary64 :=
  ofDecimal l.negative l.coefficient l.exponent

def ofNat (n : Nat) : Binary64 := nearest false n 1

def ofInt (n : Int) : Binary64 := nearest (n < 0) n.natAbs 1

/-- The double nearest to a hundred times the number. -/
def hundredfold : Binary64 → Binary64
  | finite negative x => nearest negative (100 * x.num) x.den
  | x => x

/-- The double nearest to a hundredth of the number. -/
def hundredth : Binary64 → Binary64
  | finite negative x => nearest negative x.num (100 * x.den)
  | x => x

end Binary64

end Numeral
