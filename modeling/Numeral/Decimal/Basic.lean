import Numeral.Decimal.Digits
import Numeral.Power

/-!
# Decimals

A non-negative decimal number as the digits that follow its point and the place of the point:
`digits = [d₀, d₁, …]` and `point` stand for `0.d₀d₁… × 10 ^ point`.  No digits stand for zero.
The integer part and the fraction part of a decimal are digit lists too.
-/

namespace Numeral

/-- The number `0.d₀d₁… × 10 ^ point`, with `digits = [d₀, d₁, …]`. -/
structure Decimal where
  digits : List Nat
  point : Int
  deriving DecidableEq, Repr

namespace Decimal

def zero : Decimal := ⟨[], 0⟩

def isZero (d : Decimal) : Bool := d.digits.isEmpty

/-- The decimal with some digits, without the zeros at their end. -/
def ofDigitsAt (ds : List Nat) (point : Int) : Decimal :=
  if (trimZeros ds).isEmpty then zero else ⟨trimZeros ds, point⟩

/-- The decimal `n × 10 ^ e`, without zeros at either end of its digits. -/
def ofScaled (n : Nat) (e : Int) : Decimal :=
  if n = 0 then zero else ⟨trimZeros (digitsOf n), (digitCount n : Int) + e⟩

/-- The digits before the point, without leading zeros: none for a number below one. -/
def integerDigits (d : Decimal) : List Nat :=
  if d.point ≤ 0 then [] else padRight d.point.toNat (d.digits.take d.point.toNat)

/-- The digits after the point, without trailing zeros. -/
def fractionDigits (d : Decimal) : List Nat :=
  if d.digits.length ≤ d.point then []
  else List.replicate (-d.point).toNat 0 ++ d.digits.drop d.point.toNat

end Decimal

end Numeral
