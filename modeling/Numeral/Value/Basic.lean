import Numeral.Binary64.Nearest

/-!
# Loosely typed values

The values that callers hand in as options and arguments: null, booleans, numbers, strings, arrays
and objects.  A number keeps the kind of its literal: `5` is an integer and `5.0` is not.
-/

namespace Numeral

/-- A number as its literal spells it. -/
inductive Number where
  /-- A literal without a point and an exponent. -/
  | integer (n : Int)
  /-- A literal with a point or an exponent, or one too great for an integer. -/
  | real (negative : Bool) (magnitude : Magnitude)
  deriving DecidableEq

namespace Number

/-- The number that a literal spells.  Digits alone, with or without a minus sign, spell an integer
if it fits into 64 bits; `-0` does not, as no integer has its sign. -/
def ofLiteral? (cs : List Char) : Option Number := do
  let l ← Decimal.Literal.parse? cs
  let n : Int := if l.negative then -l.coefficient else l.coefficient
  if cs.all (fun c => c.isDigit || c == '-') && -(pow2 63 : Int) ≤ n && n < pow2 64 &&
      !(l.negative && l.coefficient == 0) then
    some (integer n)
  else (Magnitude.ofDecimal? l.coefficient l.exponent).map (real l.negative)

def toBinary64 : Number → Binary64
  | integer n => Binary64.ofInt n
  | real negative x => .finite negative x

end Number

/-- A loosely typed value. -/
inductive Value where
  | null
  | bool (b : Bool)
  | number (n : Number)
  | string (s : String)
  | array (items : List Value)
  | object (fields : List (String × Value))

namespace Value

def isNull : Value → Bool
  | null => true
  | _ => false

def asString? : Value → Option String
  | string s => some s
  | _ => none

def ofNat (n : Nat) : Value := number (.integer n)

end Value

end Numeral
