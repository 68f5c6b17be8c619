import Numeral.Binary64.Nearest
import Numeral.Text.Radix
import Numeral.Toml.Scanner

/-!
# TOML numbers

Numbers may have single underscores between their digits.  Integers have 64 bits and may be written
in base two, eight or sixteen.
-/

namespace Numeral.Toml

open Scanner

/-- Reads digits of a class with single underscores between them, and gives the digits. -/
def digitRun (p : Char → Bool) : Scanner (List Char) := do
  let d ← satisfy p
  let ds ← many (satisfy p <|> (char '_' *> satisfy p))
  return d :: ds

/-- Reads a sign, if there is one, and says whether it is a minus. -/
def sign : Scanner Bool := do
  match ← optional (satisfy fun c => c == '+' || c == '-') with
  | some c => return c == '-'
  | none => return false

/-- Reads the digits of a decimal integer, which has no zero before its first digit. -/
def wholeDigits : Scanner (List Char) := do
  let ds ← (do let d ← satisfy (· == '0'); return [d]) <|> digitRun Char.isDigit
  return ds

def exponent : Scanner Int := do
  let _ ← satisfy fun c => c == 'e' || c == 'E'
  let negative ← sign
  let n : Int := Decimal.readDigits (← digitRun Char.isDigit)
  return if negative then -n else n

/-- Reads a number with a fraction, an exponent or both.  One that is too great for a double is an
error, and one that is too small for it is an infinity. -/
def decimalFloat : Scanner Binary64 := do
  let negative ← sign
  let whole ← wholeDigits
  let fraction ← optional (char '.' *> digitRun Char.isDigit)
  let e ← optional exponent
  require (fraction.isSome || e.isSome)
  let ds := whole ++ fraction.getD []
  let x := Binary64.ofDecimal negative (Decimal.readDigits ds)
    (e.getD 0 - (fraction.getD []).length)
  require (x != .infinity false)
  return x

/-- Reads an infinity or the number that is none. -/
def specialFloat : Scanner Binary64 := do
  let negative ← sign
  (text "inf" *> pure (.infinity negative)) <|> (text "nan" *> pure .nan)

/-- Reads an integer without a sign behind a mark that names its base. -/
def radixInteger (mark : String) (base : Nat) : Scanner Int := do
  text mark
  let ds ← digitRun (Text.isRadixDigit base)
  return Text.readRadixDigits base ds

def decimalInteger : Scanner Int := do
  let negative ← sign
  let n : Int := Decimal.readDigits (← wholeDigits)
  return if negative then -n else n

def integer : Scanner Int := do
  let n ← radixInteger "0x" 16 <|> radixInteger "0o" 8 <|> radixInteger "0b" 2 <|> decimalInteger
  require (-(pow2 63 : Int) ≤ n && n < pow2 63)
  return n

end Numeral.Toml
