/-!
# Powers

The powers of the two bases that numbers are written in here.
-/

namespace Numeral

def pow2 (n : Nat) : Nat := Nat.pow 2 n

def pow10 (n : Nat) : Nat := Nat.pow 10 n

end Numeral
