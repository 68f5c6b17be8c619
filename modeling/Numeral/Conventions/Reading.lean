import Numeral.Binary64.Nearest
import Numeral.Conventions.Basic
import Numeral.Text.WhiteSpace

/-!
# Reading numbers

A number is read from its sign, an affix, digits or the infinity sign, and another affix, with
white space anywhere between them.  The affixes may be absent, the sign may stand before or after
the leading one, and separators may stand between any two digits before the decimal sign.  Marks of
text direction do not count, and digits of the numbering system are read like ASCII digits.  Each
part takes as much of the text as it can, and what is then left over is an error.
-/

namespace Numeral

def isDirectionMark (c : Char) : Bool := c == '\u200e' || c == '\u200f' || c == '\u061c'

def stripMarks (cs : List Char) : List Char := cs.filter fun c => !isDirectionMark c

/-- The texts that a reader looks for. -/
structure Symbols where
  decimal : Char
  group : Char
  /-- Stands before negative numbers, besides the hyphen and the minus sign. -/
  minus : List Char
  /-- Stands for infinity; no text stands for none. -/
  infinity : List Char
  leading : List Char
  trailing : List Char
  deriving DecidableEq, Repr

/-- What stands for the number between its affixes. -/
inductive Body where
  | infinity
  /-- Integer digits and fraction digits, in ASCII and without separators. -/
  | digits (integer fraction : List Char)
  deriving DecidableEq, Repr

/-- A text that has been read: its sign and what stands for the number. -/
structure Reading where
  negative : Bool
  body : Body
  deriving DecidableEq, Repr

def Reading.value (r : Reading) : Binary64 :=
  match r.body with
  | .infinity => .infinity r.negative
  | .digits integer fraction =>
    .ofDecimal r.negative (Decimal.readDigits (integer ++ fraction)) (-(fraction.length : Int))

/-- What is left of a text after another one at its start. -/
def afterText? : List Char → List Char → Option (List Char)
  | [], cs => some cs
  | _ :: _, [] => none
  | t :: ts, c :: cs => if t = c then afterText? ts cs else none

/-- What is left of a text after another one at its start, if it is there. -/
def skipText (t cs : List Char) : List Char := (afterText? t cs).getD cs

/-- The digits of groups behind separators at the start of a text, and the rest of the text. -/
def splitGroups (separator : Char) (cs : List Char) : List Char × List Char :=
  match cs with
  | [] => ([], [])
  | c :: rest =>
    if c = separator ∧ (rest.takeWhile Char.isDigit).isEmpty = false then
      let (ds, rest') := splitGroups separator (rest.dropWhile Char.isDigit)
      (rest.takeWhile Char.isDigit ++ ds, rest')
    else ([], c :: rest)
termination_by cs.length
decreasing_by
  have := (List.dropWhile_suffix (l := rest) Char.isDigit).length_le
  simp only [List.length_cons]
  omega

namespace Symbols

/-- Takes a minus sign off the start of a text, and says whether there was one. -/
def splitMinus (s : Symbols) (cs : List Char) : Bool × List Char :=
  match ((afterText? s.minus cs).or (afterText? ['-'] cs)).or (afterText? ['\u2212'] cs) with
  | some rest => (true, rest)
  | none => (false, cs)

/-- The integer digits at the start of a text without their separators, and the rest. -/
def splitInteger (s : Symbols) (cs : List Char) : List Char × List Char :=
  let head := cs.takeWhile Char.isDigit
  if head.isEmpty then ([], cs)
  else
    let (tail, rest) := splitGroups s.group (cs.dropWhile Char.isDigit)
    (head ++ tail, rest)

/-- The fraction digits behind a decimal sign at the start of a text, and the rest. -/
def splitFraction (s : Symbols) : List Char → List Char × List Char
  | [] => ([], [])
  | c :: rest =>
    if c = s.decimal then
      let ds := rest.takeWhile Char.isDigit
      if ds.isEmpty then ([], c :: rest) else (ds, rest.dropWhile Char.isDigit)
    else ([], c :: rest)

/-- Reads what stands for a number at the start of a text: the infinity sign, or digits at least on
one side of the decimal sign. -/
def splitBody? (s : Symbols) (cs : List Char) : Option (Body × List Char) :=
  match if s.infinity.isEmpty then none else afterText? s.infinity cs with
  | some rest => some (.infinity, rest)
  | none =>
    let (integer, rest) := s.splitInteger cs
    let (fraction, rest) := s.splitFraction rest
    if integer.isEmpty && fraction.isEmpty then none else some (.digits integer fraction, rest)

/-- Reads a text in which digits are ASCII digits and no marks of text direction are left. -/
def read? (s : Symbols) (cs : List Char) : Option Reading := do
  let (before, cs) := s.splitMinus (Text.trimLeft cs)
  let cs := Text.trimLeft (skipText s.leading (Text.trimLeft cs))
  let (after, cs) := if before then (false, cs) else s.splitMinus cs
  let (body, cs) ← s.splitBody? (Text.trimLeft cs)
  let cs := Text.trimLeft (skipText s.trailing (Text.trimLeft cs))
  if cs.isEmpty then some ⟨before || after, body⟩ else none

end Symbols

namespace Conventions

def symbols (c : Conventions) : Symbols where
  decimal := c.settings.decimal
  group := c.settings.group
  minus :=
    let minus := stripMarks c.settings.minus.toList
    if minus.isEmpty then ['-'] else minus
  infinity := stripMarks c.settings.infinity.toList
  leading := Text.trim (stripMarks c.affixes.leading)
  trailing := Text.trim (stripMarks c.affixes.trailing)

/-- A text without marks of text direction and with ASCII digits. -/
def normalize (c : Conventions) (cs : List Char) : List Char :=
  (stripMarks cs).map c.numberingSystem.toAscii

/-- Reads a text as the number that it shows. -/
def readBody (c : Conventions) (cs : List Char) : Binary64 :=
  ((c.symbols.read? (c.normalize cs)).map Reading.value).getD .nan

/-- Reads a text.  A text that cannot be read is not a number. -/
def read (c : Conventions) (cs : List Char) : Binary64 :=
  match c.config.style with
  | .percent => (c.readBody cs).hundredth
  | _ => c.readBody cs

end Conventions

end Numeral
