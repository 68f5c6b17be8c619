/-!
# White space

The characters with the Unicode property `White_Space`, and texts without them at the ends.
-/

namespace Numeral.Text

/-- Whether `c` has the Unicode property `White_Space`. -/
def isWhiteSpace (c : Char) : Bool :=
  let n := c.toNat
  (9 ≤ n && n ≤ 13) || n == 0x20 || n == 0x85 || n == 0xA0 || n == 0x1680 ||
    (0x2000 ≤ n && n ≤ 0x200A) || n == 0x2028 || n == 0x2029 || n == 0x202F || n == 0x205F ||
    n == 0x3000

def trimLeft (cs : List Char) : List Char :=
  cs.dropWhile isWhiteSpace

def trimRight (cs : List Char) : List Char :=
  (cs.reverse.dropWhile isWhiteSpace).reverse

def trim (cs : List Char) : List Char :=
  trimRight (trimLeft cs)

end Numeral.Text
