import Numeral.Value.Basic
import Numeral.Text.Radix
import Numeral.Text.WhiteSpace

/-!
# Numbers and truth values of loosely typed values

Every value has a truth value, and every value but an array or an object has a number.  Null is
zero, the truth values are zero and one, and a text is read as a number between its white space: as
nothing (zero), as an infinity, as an integer in base two, eight or sixteen, or as a decimal
literal.  Any other text is not a number.
-/

namespace Numeral

/-- Reads an integer of at most 64 bits by its digits in a base, with or without a plus sign. -/
def readRadix? (base : Nat) (cs : List Char) : Option Nat :=
  let ds := match cs with
    | '+' :: ds => ds
    | ds => ds
  let n := Text.readRadixDigits base ds
  if !ds.isEmpty && ds.all (Text.isRadixDigit base) && n < pow2 64 then some n else none

/-- The base that the second character of a text such as `0x1F` names. -/
def radixOf? (c : Char) : Option Nat :=
  if c == 'x' || c == 'X' then some 16
  else if c == 'o' || c == 'O' then some 8
  else if c == 'b' || c == 'B' then some 2
  else none

/-- The number that a text without white space around it denotes. -/
def readNumeral (cs : List Char) : Binary64 :=
  if cs = [] then .zero
  else if cs = "Infinity".toList ∨ cs = "+Infinity".toList then .infinity false
  else if cs = "-Infinity".toList then .infinity true
  else
    let decimal : Binary64 := (Decimal.Literal.parse? cs).elim .nan Binary64.ofLiteral
    match cs with
    | '0' :: c :: ds =>
      match radixOf? c with
      | some base => (readRadix? base ds).elim .nan Binary64.ofNat
      | none => decimal
    | _ => decimal

namespace Value

/-- The number of the value; arrays and objects have none. -/
def toNumber? : Value → Option Binary64
  | null => some .zero
  | bool b => some (.ofNat b.toNat)
  | number n => some n.toBinary64
  | string s => some (readNumeral (Text.trim s.toList))
  | array _ | object _ => none

/-- The truth value of the value: false for null, the zeros and the empty text. -/
def toBool : Value → Bool
  | null => false
  | bool b => b
  | number n => !n.toBinary64.isZero
  | string s => s != ""
  | array _ | object _ => true

end Value

end Numeral
