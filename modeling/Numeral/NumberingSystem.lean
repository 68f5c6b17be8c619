/-!
# Numbering systems

The ten digits of each decimal numbering system.  All but one have consecutive characters as digits.
-/

namespace Numeral

/-- A decimal numbering system. -/
inductive NumberingSystem where
  | latn
  | arab
  | arabext
  | beng
  | deva
  | fullwide
  | hanidec
  | thai
  deriving DecidableEq, Repr

namespace NumberingSystem

def all : List NumberingSystem := [latn, arab, arabext, beng, deva, fullwide, hanidec, thai]

/-- The identifier of the numbering system in locale tags. -/
def name : NumberingSystem → String
  | latn => "latn"
  | arab => "arab"
  | arabext => "arabext"
  | beng => "beng"
  | deva => "deva"
  | fullwide => "fullwide"
  | hanidec => "hanidec"
  | thai => "thai"

def ofName? (s : String) : Option NumberingSystem :=
  all.find? (·.name == s)

def digits : NumberingSystem → List Char
  | latn => ['0', '1', '2', '3', '4', '5', '6', '7', '8', '9']
  | arab => ['٠', '١', '٢', '٣', '٤', '٥', '٦', '٧', '٨', '٩']
  | arabext => ['۰', '۱', '۲', '۳', '۴', '۵', '۶', '۷', '۸', '۹']
  | beng => ['০', '১', '২', '৩', '৪', '৫', '৬', '৭', '৮', '৯']
  | deva => ['०', '१', '२', '३', '४', '५', '६', '७', '८', '९']
  | fullwide => ['０', '１', '２', '３', '４', '５', '６', '７', '８', '９']
  | hanidec => ['〇', '一', '二', '三', '四', '五', '六', '七', '八', '九']
  | thai => ['๐', '๑', '๒', '๓', '๔', '๕', '๖', '๗', '๘', '๙']

/-- The numbering system's character for an ASCII digit; any other character is left alone. -/
def fromAscii (s : NumberingSystem) (c : Char) : Char :=
  if c.isDigit then s.digits.getD (c.toNat - '0'.toNat) c else c

/-- The ASCII digit for one of the numbering system's digits; any other character is left alone. -/
def toAscii (s : NumberingSystem) (c : Char) : Char :=
  match s.digits.idxOf? c with
  | some d => Nat.digitChar d
  | none => c

@[simp]
theorem ofName?_name (s : NumberingSystem) : ofName? s.name = some s := by
  cases s <;> decide

theorem length_digits (s : NumberingSystem) : s.digits.length = 10 := by
  cases s <;> rfl

end NumberingSystem

end Numeral
