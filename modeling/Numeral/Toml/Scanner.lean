/-!
# Scanners

A scanner reads a value from the start of a text and leaves the rest, or fails.  Repetition ends
where the repeated scanner fails or takes nothing.
-/

namespace Numeral.Toml

/-- Reads a value from the start of a text and leaves the rest, or fails. -/
abbrev Scanner := StateT (List Char) Option

namespace Scanner

variable {α : Type}

def satisfy (p : Char → Bool) : Scanner Char
  | [] => none
  | c :: cs => if p c then some (c, cs) else none

def char (c : Char) : Scanner Unit
  | [] => none
  | d :: cs => if c = d then some ((), cs) else none

def text (s : String) : Scanner Unit := s.toList.forM char

/-- Reads the longest text of a class of characters, which may be empty. -/
def takeWhile (p : Char → Bool) : Scanner (List Char) := fun cs =>
  some (cs.takeWhile p, cs.dropWhile p)

def takeWhile1 (p : Char → Bool) : Scanner (List Char) := do
  let c ← satisfy p
  return c :: (← takeWhile p)

def count (n : Nat) (p : Char → Bool) : Scanner (List Char) :=
  (List.range n).mapM fun _ => satisfy p

/-- The values that a scanner reads one after the other, and the rest. -/
def scanMany (p : Scanner α) (cs : List Char) : List α × List Char :=
  match p cs with
  | none => ([], cs)
  | some (a, rest) =>
    if rest.length < cs.length then
      let (as, rest) := scanMany p rest
      (a :: as, rest)
    else ([], cs)
termination_by cs.length

/-- Reads with a scanner as often as it takes something. -/
def many (p : Scanner α) : Scanner (List α) := fun cs => some (scanMany p cs)

/-- Reads with a scanner at least once, with a separator before every further time. -/
def separated1 (p : Scanner α) (separator : Scanner Unit) : Scanner (List α) := do
  let a ← p
  return a :: (← many (separator *> p))

def atEnd : Scanner Unit
  | [] => some ((), [])
  | _ :: _ => none

/-- Reads with a scanner and gives the text that it took. -/
def spelling (p : Scanner α) : Scanner (List Char) := fun cs =>
  (p cs).map fun (_, rest) => (cs.take (cs.length - rest.length), rest)

def require (b : Bool) : Scanner Unit := if b then pure () else failure

/-! ## Blanks, comments and line ends -/

/-- Reads a line end: a line feed, with or without a carriage return before it. -/
def newline : Scanner Unit := char '\n' <|> (char '\x0d' *> char '\n')

def isBlank (c : Char) : Bool := c == ' ' || c == '\t'

def blanks : Scanner Unit := do
  let _ ← takeWhile isBlank

/-- Whether the character may stand as itself in a comment or a text.  Tabs are the only control
characters of ASCII that may. -/
def isPrintable (c : Char) : Bool := c == '\t' || (' ' ≤ c && c != '\x7f')

/-- Reads a comment up to the end of its line. -/
def comment : Scanner Unit := do
  char '#'
  let _ ← takeWhile isPrintable

/-- Reads what may stand between a statement and the next one on a line of its own. -/
def lineEnd : Scanner Unit := do
  blanks
  let _ ← optional comment
  newline <|> atEnd

/-- Reads blanks, comments and line ends within an array. -/
def filler : Scanner Unit := do
  let _ ← many ((do let _ ← takeWhile1 isBlank) <|> (do let _ ← optional comment; newline))

end Scanner

end Numeral.Toml
