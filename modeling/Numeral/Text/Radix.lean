/-!
# Digits in bases up to sixteen

The digits after nine are the first six letters, in either case.
-/

namespace Numeral.Text

/-- The value of a digit in a base up to sixteen. -/
def radixDigit? (base : Nat) (c : Char) : Option Nat :=
  let n :=
    if c.isDigit then c.toNat - '0'.toNat
    else if 'a' ≤ c ∧ c ≤ 'f' then c.toNat - 'a'.toNat + 10
    else if 'A' ≤ c ∧ c ≤ 'F' then c.toNat - 'A'.toNat + 10
    else base
  if n < base then some n else none

def isRadixDigit (base : Nat) (c : Char) : Bool := (radixDigit? base c).isSome

/-- The number that a text of digits denotes in a base up to sixteen; no other characters count. -/
def readRadixDigits (base : Nat) (cs : List Char) : Nat :=
  (cs.filterMap (radixDigit? base)).foldl (fun n d => base * n + d) 0

end Numeral.Text
