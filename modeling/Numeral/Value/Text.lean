import Numeral.Value.Basic
import Numeral.Binary64.Text

/-!
# Values as text

Two texts of a value: the one it converts to, and the short one that messages show.
-/

namespace Numeral

namespace Number

/-- The number as messages show it: integers by their digits, others by their plain text. -/
def literalText : Number → List Char
  | integer n => intText n
  | real negative x => x.plainText negative

/-- The text that the number converts to.  A whole number below `10 ^ 21` is written by all its
digits, whatever its literal was, and without the sign of a zero. -/
def toText : Number → List Char
  | integer n => intText n
  | real negative x =>
    if x.isZero then ['0']
    else if x.isNat && x.floor < pow10 21 then signed negative (Decimal.natText x.floor)
    else x.plainText negative

end Number

namespace Value

/-- The text that the value converts to; arrays and objects have none. -/
def toText? : Value → Option String
  | null => some "null"
  | bool b => some (if b then "true" else "false")
  | number n => some (String.ofList n.toText)
  | string s => some s
  | array _ | object _ => none

/-- The short text that messages show for the value. -/
def describe : Value → String
  | null => "null"
  | bool b => if b then "true" else "false"
  | number n => String.ofList n.literalText
  | string s => "\"" ++ s ++ "\""
  | array _ => "[array]"
  | object _ => "[object]"

end Value

end Numeral
