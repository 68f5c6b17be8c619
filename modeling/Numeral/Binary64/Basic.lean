import Numeral.Power

/-!
# Double precision numbers

A number of the binary64 format: not a number, an infinity, or a sign and a magnitude.  A magnitude
is `significand × 2 ^ exponent` in the one form that the format has for it, so two magnitudes are
the same number only if they are equal.
-/

namespace Numeral

/-- Whether `significand × 2 ^ exponent` is the form that the format has for this number.  The
significand has at most 53 bits, and exactly 53 unless the exponent is the least one. -/
def IsMagnitude (significand : Nat) (exponent : Int) : Prop :=
  significand < pow2 53 ∧ -1074 ≤ exponent ∧ exponent ≤ 971 ∧
    (pow2 52 ≤ significand ∨ exponent = -1074)

instance (significand : Nat) (exponent : Int) : Decidable (IsMagnitude significand exponent) :=
  inferInstanceAs (Decidable (_ ∧ _ ∧ _ ∧ (_ ∨ _)))

/-- The finite number `significand × 2 ^ exponent`, without its sign. -/
structure Magnitude where
  significand : Nat
  exponent : Int
  isMagnitude : IsMagnitude significand exponent
  deriving DecidableEq

namespace Magnitude

def zero : Magnitude := ⟨0, -1074, by decide⟩

def isZero (x : Magnitude) : Bool := x.significand == 0

/-- The numerator of the magnitude as a fraction over `den`. -/
def num (x : Magnitude) : Nat := x.significand * pow2 x.exponent.toNat

def den (x : Magnitude) : Nat := pow2 (-x.exponent).toNat

def floor (x : Magnitude) : Nat := x.num / x.den

def isNat (x : Magnitude) : Bool := x.num % x.den == 0

end Magnitude

inductive Binary64 where
  | nan
  | infinity (negative : Bool)
  /-- A finite number, negative or not.  Zero has both signs. -/
  | finite (negative : Bool) (magnitude : Magnitude)
  deriving DecidableEq

namespace Binary64

def zero : Binary64 := finite false Magnitude.zero

def isZero : Binary64 → Bool
  | finite _ x => x.isZero
  | _ => false

def isNaN : Binary64 → Bool
  | nan => true
  | _ => false

/-- Whether the number is below zero.  Neither zero is. -/
def isNegative : Binary64 → Bool
  | nan => false
  | infinity negative => negative
  | finite negative x => negative && !x.isZero

def neg : Binary64 → Binary64
  | nan => nan
  | infinity negative => infinity !negative
  | finite negative x => finite (!negative) x

def abs : Binary64 → Binary64
  | nan => nan
  | infinity _ => infinity false
  | finite _ x => finite false x

/-- The number itself, with the positive zero for the negative one. -/
def unsignedZero (x : Binary64) : Binary64 :=
  if x.isZero then zero else x

/-- The whole part of the number, if the number is at least `min` and at most `max`. -/
def wholeWithin? (min max : Nat) : Binary64 → Option Nat
  | nan => none
  | infinity _ => none
  | finite negative x =>
    if negative && !x.isZero then none
    else if x.num < min * x.den || max * x.den < x.num then none
    else some x.floor

end Binary64

end Numeral
