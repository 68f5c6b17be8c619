import Numeral.Decimal.Digits

/-!
# Decimal literals

The plain spelling of a decimal number: an optional sign, digits with an optional point, at least
one of them, and an optional exponent.  `1.5e-3`, `+.5` and `7.` are literals; `.`, `1e` and `e5`
are not.
-/

namespace Numeral.Decimal

/-- The number `± coefficient × 10 ^ exponent`. -/
structure Literal where
  negative : Bool
  /-- The digits before and after the point, read as one number. -/
  coefficient : Nat
  /-- The written exponent less the number of digits after the point. -/
  exponent : Int
  deriving DecidableEq, Repr

/-- Splits a sign off, and says whether it is a minus. -/
def splitSign : List Char → Bool × List Char
  | '-' :: cs => (true, cs)
  | '+' :: cs => (false, cs)
  | cs => (false, cs)

/-- Reads an exponent: the mark `e` or `E`, an optional sign and at least one digit.  No text at all
is the exponent zero. -/
def readExponent? : List Char → Option Int
  | [] => some 0
  | c :: cs =>
    let (negative, ds) := splitSign cs
    if (c == 'e' || c == 'E') && !ds.isEmpty && ds.all Char.isDigit then
      let n : Int := readDigits ds
      some (if negative then -n else n)
    else none

/-- Splits the digits after a point off; without a point there are none. -/
def splitFraction : List Char → List Char × List Char
  | '.' :: cs => (cs.takeWhile Char.isDigit, cs.dropWhile Char.isDigit)
  | cs => ([], cs)

def Literal.parse? (cs : List Char) : Option Literal := do
  let (negative, body) := splitSign cs
  let whole := body.takeWhile Char.isDigit
  let (fraction, rest) := splitFraction (body.dropWhile Char.isDigit)
  if whole.isEmpty && fraction.isEmpty then none
  else
    let e ← readExponent? rest
    some ⟨negative, readDigits (whole ++ fraction), e - fraction.length⟩

end Numeral.Decimal
