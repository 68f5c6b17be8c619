import Numeral.Binary64.Nearest
import Numeral.Decimal.Basic

/-!
# Shortest decimals

The decimal with the fewest digits to which a magnitude is the nearest one.  For one digit, two
digits and so on the two neighbours of the magnitude among the decimals of that many digits are
tried; if the magnitude is nearest to both, the nearer of the two is taken.  A rule settles the tie
that is left.
-/

namespace Numeral

/-- Which of two equally near neighbours is taken. -/
inductive Tie where
  | up
  | even
  deriving DecidableEq, Repr

/-- Whether the neighbour above the number `below` is taken. -/
def Tie.goesUp (tie : Tie) (below : Nat) : Bool :=
  match tie with
  | .up => true
  | .even => below % 2 == 1

namespace Magnitude

/-- The number of digits before the point of `num / den`, or less the number of zeros after it. -/
def decimalPoint (num den : Nat) : Int :=
  if den ≤ num then Decimal.digitCount (num / den)
  else 1 - (Decimal.digitCount ((den - 1) / num) : Int)

/-- Whether `x` is the magnitude nearest to `n × 10 ^ e`. -/
def readsBack (x : Magnitude) (n : Nat) (e : Int) : Bool :=
  nearest? (n * pow10 e.toNat) (pow10 (-e).toNat) == some x

/-- The multiple of `10 ^ e` to which `x` is nearest and that is itself nearest to `x`, among the
greatest one that is not above `x` and the one after it. -/
def onGrid? (tie : Tie) (x : Magnitude) (e : Int) : Option Nat :=
  let a := x.num * pow10 (-e).toNat
  let b := x.den * pow10 e.toNat
  let below := a / b
  let r := a % b
  if x.readsBack below e then
    if x.readsBack (below + 1) e && (b < 2 * r || 2 * r == b && tie.goesUp below) then
      some (below + 1)
    else some below
  else if x.readsBack (below + 1) e then some (below + 1)
  else none

def toDecimal (x : Magnitude) : Decimal :=
  Decimal.ofScaled (x.num * pow10 (-x.exponent).toNat / x.den) (-(-x.exponent).toNat)

/-- The decimal with the fewest digits that reads back as `x`; a tie between two of them is settled
by `tie`.  All the digits of `x` are the last resort. -/
def shortest (tie : Tie) (x : Magnitude) : Decimal :=
  if x.isZero then Decimal.zero
  else
    let point := decimalPoint x.num x.den
    let ofLength? (count : Nat) : Option Decimal :=
      let e := point - count
      (x.onGrid? tie e).map fun n => Decimal.ofScaled n e
    ((List.range' 1 17).findSome? ofLength?).getD x.toDecimal

end Magnitude

/-- The shortest decimal of a number without its sign; zero for an infinity and for no number. -/
def Binary64.shortest (tie : Tie) : Binary64 → Decimal
  | finite _ x => x.shortest tie
  | _ => Decimal.zero

end Numeral
