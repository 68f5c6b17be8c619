/-!
# Subtags

The parts of a language tag between its hyphens, their classes, and their order.  Letters and digits
are those of ASCII, and lengths are counted in bytes of UTF-8.
-/

namespace Numeral

/-- A part of a language tag. -/
abbrev Subtag := List Char

namespace Subtag

/-- The number of bytes of the subtag in UTF-8. -/
def size (s : Subtag) : Nat := s.foldl (fun n c => n + c.utf8Size) 0

/-- Whether the subtag consists of `min` to `max` letters and digits. -/
def isAlphanum (min max : Nat) (s : Subtag) : Bool :=
  min ≤ s.length && s.length ≤ max && s.all Char.isAlphanum

def isAlpha (min max : Nat) (s : Subtag) : Bool :=
  min ≤ s.length && s.length ≤ max && s.all Char.isAlpha

def isLanguage (s : Subtag) : Bool := s.isAlpha 2 3

def isScript (s : Subtag) : Bool := s.isAlpha 4 4

def isRegion (s : Subtag) : Bool := s.isAlpha 2 2 || (s.length == 3 && s.all Char.isDigit)

/-- A variant: five to eight letters and digits, or four that start with a digit. -/
def isVariant (s : Subtag) : Bool :=
  s.isAlphanum 5 8 || (s.isAlphanum 4 4 && (s.take 1).all Char.isDigit)

/-- A type, which is an attribute or a part of a value: three to eight letters and digits. -/
def isType (s : Subtag) : Bool := s.isAlphanum 3 8

/-- The key of a keyword: a letter or digit, and a letter. -/
def isKey (s : Subtag) : Bool := s.isAlphanum 2 2 && (s.drop 1).all Char.isAlpha

/-- The key of a field: a letter and a digit. -/
def isFieldKey (s : Subtag) : Bool :=
  s.length == 2 && (s.take 1).all Char.isAlpha && (s.drop 1).all Char.isDigit

def isPrivate (s : Subtag) : Bool := s.isAlphanum 1 8

/-- A subtag of an extension that has no rules of its own: two to eight bytes. -/
def isOpaque (s : Subtag) : Bool := 2 ≤ s.size && s.size ≤ 8

def lower (s : Subtag) : Subtag := s.map Char.toLower

def upper (s : Subtag) : Subtag := s.map Char.toUpper

def title (s : Subtag) : Subtag := (s.take 1).map Char.toUpper ++ (s.drop 1).map Char.toLower

/-- Adds an entry to a list that is sorted by the entries' keys.  An entry that has the same key
stays and wins. -/
def insertBy {α : Type} (key : α → Subtag) (a : α) : List α → List α
  | [] => [a]
  | b :: bs =>
    match compare (key a) (key b) with
    | .lt => a :: b :: bs
    | .eq => b :: bs
    | .gt => b :: insertBy key a bs

/-- The entries sorted by their keys, and the first one of each key. -/
def sortBy {α : Type} (key : α → Subtag) (as : List α) : List α :=
  as.foldl (fun sorted a => insertBy key a sorted) []

def join (ss : List Subtag) : String := String.ofList (['-'].intercalate ss)

def split (s : String) : List Subtag := s.toList.splitOn '-'

end Subtag

end Numeral
