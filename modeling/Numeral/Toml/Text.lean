import Numeral.Text.Radix
import Numeral.Toml.Scanner

/-!
# TOML texts

A text stands between quotation marks, where a backslash starts an escape, or between apostrophes,
where every character stands for itself.  Three marks instead of one let it run over several lines.
-/

namespace Numeral.Toml

open Scanner

/-- Whether the character may stand between quotation marks as itself. -/
def isBasic (c : Char) : Bool := isPrintable c && c != '\x22' && c != '\\'

/-- Whether the character may stand between apostrophes. -/
def isLiteral (c : Char) : Bool := isPrintable c && c != '\x27'

/-- The character with a number, unless there is none. -/
def charOf? (n : Nat) : Option Char :=
  if n.isValidChar then some (Char.ofNat n) else none

/-- Reads a character by its number in `n` hexadecimal digits. -/
def charByNumber (n : Nat) : Scanner Char := do
  let ds ← count n (Text.isRadixDigit 16)
  match charOf? (Text.readRadixDigits 16 ds) with
  | some c => return c
  | none => failure

/-- Reads an escape and gives the character that it stands for. -/
def escape : Scanner Char := do
  char '\\'
  match ← satisfy fun _ => true with
  | 'b' => return '\x08'
  | 't' => return '\t'
  | 'n' => return '\n'
  | 'f' => return '\x0c'
  | 'r' => return '\x0d'
  | '\x22' => return '\x22'
  | '\\' => return '\\'
  | 'u' => charByNumber 4
  | 'U' => charByNumber 8
  | _ => failure

/-- Reads a text on one line between quotation marks. -/
def basicText : Scanner (List Char) := do
  char '\x22'
  let cs ← many (satisfy isBasic <|> escape)
  char '\x22'
  return cs

/-- Reads a text on one line between apostrophes. -/
def literalText : Scanner (List Char) := do
  char '\x27'
  let cs ← takeWhile isLiteral
  char '\x27'
  return cs

/-- Reads a line end within a text; it stands for a line feed. -/
def lineFeed : Scanner (List Char) := newline *> pure ['\n']

/-- Reads one or two marks within a text that three of them enclose. -/
def innerMarks (mark : Char) : Scanner (List Char) := do
  let marks ← takeWhile (· == mark)
  require (marks.length == 1 || marks.length == 2)
  return marks

/-- Reads the three marks after a text, and up to two before them that belong to the text. -/
def closingMarks (mark : Char) : Scanner (List Char) := do
  let marks ← takeWhile (· == mark)
  require (3 ≤ marks.length && marks.length ≤ 5)
  return marks.drop 3

/-- Reads a backslash at the end of a line with the blanks and line ends after it.  They stand for
nothing. -/
def lineJoin : Scanner (List Char) := do
  char '\\'
  blanks
  newline
  let _ ← many ((do let _ ← takeWhile1 isBlank) <|> newline)
  return []

/-- Reads a text over several lines: its pieces between three marks on each side.  A line end right
after the first three does not count. -/
def multiline (mark : Char) (piece : Scanner (List Char)) : Scanner (List Char) := do
  char mark; char mark; char mark
  let _ ← optional newline
  let pieces ← many (piece <|> lineFeed <|> innerMarks mark)
  return pieces.flatten ++ (← closingMarks mark)

/-- Reads a piece of a text over several lines between quotation marks. -/
def basicPiece : Scanner (List Char) :=
  (do return [← satisfy isBasic]) <|> lineJoin <|> (do return [← escape])

def anyText : Scanner String := do
  let cs ← multiline '\x22' basicPiece <|> basicText <|>
    multiline '\x27' (takeWhile1 isLiteral) <|> literalText
  return String.ofList cs

end Numeral.Toml
