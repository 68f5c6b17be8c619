import Numeral.Decimal.Basic

/-!
# Rounding decimals

Decimals are rounded at a place, and a half goes up.  Two kinds of bounds say where: on the digits
after the point, and on the significant digits.  Under both, missing digits are filled with zeros
up to a minimum.
-/

namespace Numeral

/-- The least and the greatest number of digits to show. -/
structure DigitRange where
  /-- Zeros fill up to this many digits. -/
  minimum : Nat
  /-- Rounding leaves at most this many digits. -/
  maximum : Nat
  deriving DecidableEq, Repr

namespace Decimal

/-- The decimal whose digits count one more in their last place.  A one that is carried out of the
first of them stands before it. -/
def incrementAt (ds : List Nat) (point : Int) : Decimal :=
  match increment ds with
  | (false, ds) => ofDigitsAt ds point
  | (true, ds) => ofDigitsAt (1 :: ds) (point + 1)

/-- The nearest decimal with at most `keep` digits, counted from the first one; a half goes up, so
the digit behind the kept ones decides.  A place before the first digit leaves no digit and keeps
the point where it is. -/
def roundAt (d : Decimal) (keep : Int) : Decimal :=
  if keep < 0 then ⟨[], d.point⟩
  else
    match d.digits.drop keep.toNat with
    | [] => d
    | next :: _ =>
      let kept := d.digits.take keep.toNat
      if next < 5 then ofDigitsAt kept d.point else incrementAt kept d.point

/-- The nearest decimal with at most `max` digits after the point. -/
def roundToFraction (d : Decimal) (max : Nat) : Decimal :=
  d.roundAt (d.point + max)

/-- The nearest decimal with at most `max` significant digits. -/
def roundToSignificant (d : Decimal) (max : Nat) : Decimal :=
  d.roundAt max

/-- The digits that a reader counts as significant when the decimal is written out: all from the
first one that is not zero.  A lone zero counts as one. -/
def shownDigits (d : Decimal) : Nat :=
  if d.isZero then 1 + d.fractionDigits.length
  else if 0 < d.point then d.integerDigits.length + d.fractionDigits.length
  else d.fractionDigits.length - (-d.point).toNat

/-- The integer digits and the fraction digits under bounds on the fraction digits. -/
def withFractionDigits (d : Decimal) (range : DigitRange) : List Nat × List Nat :=
  let r := d.roundToFraction range.maximum
  (r.integerDigits, padRight range.minimum r.fractionDigits)

/-- The integer digits and the fraction digits under bounds on the significant digits. -/
def withSignificantDigits (d : Decimal) (range : DigitRange) : List Nat × List Nat :=
  let r := d.roundToSignificant range.maximum
  (r.integerDigits,
    padRight (r.fractionDigits.length + (range.minimum - r.shownDigits)) r.fractionDigits)

end Decimal

end Numeral
