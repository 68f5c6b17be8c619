import Numeral.Binary64.Shortest
import Numeral.Conventions.Basic

/-!
# Writing numbers

A number is written by its shortest decimal, rounded to the bounds of the configuration, filled up
with zeros, grouped by threes and put into the digits of the numbering system.  The minus sign comes
before everything else.
-/

namespace Numeral

/-- Digits with a separator between groups of three, counted from the right. -/
def groupDigits {α : Type} (separator : α) : List α → List α
  | [] => []
  | d :: ds =>
    if ds.length % 3 = 0 ∧ ds ≠ [] then d :: separator :: groupDigits separator ds
    else d :: groupDigits separator ds

namespace Conventions

/-- The integer digits and fraction digits to show for a magnitude. -/
def shownDigits (c : Conventions) (x : Magnitude) : List Nat × List Nat :=
  match c.config.significantDigits with
  | some range => (x.shortest .up).withSignificantDigits range
  | none => (x.shortest .up).withFractionDigits c.config.fractionDigits

/-- Integer digits as ASCII text: filled up with zeros and grouped if that is wanted. -/
def integerText (c : Conventions) (ds : List Nat) : List Char :=
  let text := Decimal.digitText (Decimal.padLeft c.config.minimumIntegerDigits ds)
  if c.config.useGrouping then groupDigits c.settings.group text else text

/-- Fraction digits as ASCII text behind the decimal sign, and nothing if there are none. -/
def fractionText (c : Conventions) (ds : List Nat) : List Char :=
  if ds.isEmpty then [] else c.settings.decimal :: Decimal.digitText ds

def magnitudeText (c : Conventions) (x : Magnitude) : List Char :=
  let (integer, fraction) := c.shownDigits x
  (c.integerText integer ++ c.fractionText fraction).map c.numberingSystem.fromAscii

/-- The number whose digits are shown: a hundred times the number itself in the percent style. -/
def scaled (c : Conventions) (x : Binary64) : Binary64 :=
  match c.config.style with
  | .percent => x.hundredfold
  | _ => x

/-- A number without its sign as text, without affixes. -/
def bodyText (c : Conventions) : Binary64 → List Char
  | .finite _ x => c.magnitudeText x
  | .infinity _ => c.settings.infinity.toList
  | .nan => c.settings.nan.toList

def write (c : Conventions) (x : Binary64) : List Char :=
  if x.isNaN then c.settings.nan.toList
  else
    let sign := if x.isNegative then c.settings.minus.toList else []
    sign ++ c.affixes.leading ++ c.bodyText (c.scaled x.abs) ++ c.affixes.trailing

end Conventions

end Numeral
