import Numeral.Binary64.Shortest

/-!
# Doubles as text

Two spellings of a number by its shortest decimal.  The exponential one writes every number as one
digit, the others after a point, and an exponent.  The plain one writes numbers of middle size
without an exponent.
-/

namespace Numeral

open Decimal (digitText natText)

def intText (n : Int) : List Char :=
  if n < 0 then '-' :: natText n.natAbs else natText n.natAbs

/-- The digits of a decimal with a point after the first one; a single digit has no point. -/
def mantissaText (digits : List Nat) : List Char :=
  match digits with
  | [] => ['0']
  | [d] => digitText [d]
  | d :: ds => digitText [d] ++ '.' :: digitText ds

namespace Decimal

/-- The exponential text of a decimal: `1.5e3`. -/
def exponentialText (d : Decimal) : List Char :=
  if d.isZero then ['0', 'e', '0'] else mantissaText d.digits ++ 'e' :: intText (d.point - 1)

/-- The text of a decimal with a point and at least one digit on each side of it: `1500.0`. -/
def positionalText (d : Decimal) : List Char :=
  digitText (padLeft 1 d.integerDigits) ++ '.' :: digitText (padRight 1 d.fractionDigits)

/-- The plain text of a decimal: positional if its first digit stands at most sixteen places before
and five places after the point, else exponential with a sign in the exponent. -/
def plainText (d : Decimal) : List Char :=
  let e := d.point - 1
  if d.isZero || (-5 ≤ e && e ≤ 15) then d.positionalText
  else mantissaText d.digits ++ 'e' :: (if 0 ≤ e then '+' :: intText e else intText e)

end Decimal

/-- A minus sign before a text, if wanted. -/
def signed (negative : Bool) (text : List Char) : List Char :=
  if negative then '-' :: text else text

/-- The exponential text of a number: `1.5e3`, `-0e0`, `NaN`, `-Infinity`. -/
def Binary64.exponentialText : Binary64 → List Char
  | nan => "NaN".toList
  | infinity negative => signed negative "Infinity".toList
  | finite negative x => signed negative (x.shortest .up).exponentialText

/-- The plain text of a signed magnitude: `1500.0`, `1e-6`, `-0.0`. -/
def Magnitude.plainText (negative : Bool) (x : Magnitude) : List Char :=
  signed negative (x.shortest .even).plainText

end Numeral
