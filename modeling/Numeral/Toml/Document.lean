import Numeral.Toml.Datetime
import Numeral.Toml.Node
import Numeral.Toml.Number
import Numeral.Toml.Text

/-!
# TOML documents

A document is a list of statements, one a line: entries, and headers of tables that the entries
after them belong to.  The statements are read first and then fill the tables of the document.
-/

namespace Numeral.Toml

open Scanner

/-- A key with dots: the names of the tables that it passes through, and the last name. -/
structure Key where
  path : List String
  name : String
  deriving Repr

def Key.names (k : Key) : List String := k.path ++ [k.name]

inductive Statement where
  | entry (key : Key) (value : Value)
  | table (key : Key)
  /-- The header of another table of an array. -/
  | element (key : Key)

/-! ## Reading statements -/

/-- Whether the character may stand in a name without marks around it. -/
def isBare (c : Char) : Bool := c.isAlphanum || c == '_' || c == '-'

/-- Reads one name of a key. -/
def name : Scanner String := do
  let cs ← takeWhile1 isBare <|> basicText <|> literalText
  return String.ofList cs

/-- The greatest number of names in a key, and of brackets around a value. -/
def depthLimit : Nat := 79

/-- Reads a key and the blanks around it. -/
def key : Scanner Key := do
  let names ← separated1 (do blanks; let n ← name; blanks; return n) (char '.')
  require (names.length ≤ depthLimit)
  match names.reverse with
  | [] => failure
  | n :: path => return ⟨path.reverse, n⟩

/-- Reads a key and a value with an equals sign between them. -/
def pair (value : Scanner Value) : Scanner (Key × Value) := do
  let k ← key
  char '='
  blanks
  return (k, ← value)

def array (value : Scanner Value) : Scanner Value := do
  char '['
  let items ← optional do
    let items ← separated1 (do filler; let v ← value; filler; return v) (char ',')
    let _ ← optional (char ',')
    return items
  filler
  char ']'
  return .array (items.getD [])

def inlineTable (value : Scanner Value) : Scanner Value := do
  char '\x7b'
  let pairs ← optional (separated1 (do let p ← pair value; blanks; return p) (char ','))
  blanks
  char '\x7d'
  let add (es : Node.Entries) (p : Key × Value) := es.insert? p.1.name p.2 p.1.path
  match (pairs.getD []).foldlM add [] with
  | some es => return .table (Node.entriesToTable es)
  | none => failure

/-- Reads a value that is neither an array nor a table. -/
def scalar : Scanner Value :=
  (do return .string (← anyText)) <|>
  (text "true" *> pure (.boolean true)) <|>
  (text "false" *> pure (.boolean false)) <|>
  (do return .datetime (← datetime)) <|>
  (do return .float (← decimalFloat)) <|>
  (do return .float (← specialFloat)) <|>
  (do return .integer (← integer))

/-- Reads a value with brackets around brackets up to a depth. -/
def value : Nat → Scanner Value
  | 0 => scalar
  | depth + 1 => array (value depth) <|> inlineTable (value depth) <|> scalar

def statement : Scanner Statement :=
  (do
    char '['; char '['
    let k ← key
    char ']'; char ']'
    return .element k) <|>
  (do
    char '['
    let k ← key
    char ']'
    return .table k) <|>
  (do
    let (k, v) ← pair (value depthLimit)
    return .entry k v)

/-- Reads a line with or without a statement, unless it is the end of the document. -/
def line : Scanner (Option Statement) := do
  blanks
  (do
    let s ← statement
    lineEnd
    return some s) <|>
  (do
    let _ ← optional comment
    newline
    return none) <|>
  (do
    comment
    return none)

/-- Reads the statements of a document, behind a byte order mark if there is one. -/
def statements : Scanner (List Statement) := do
  let _ ← optional (char '\ufeff')
  let lines ← many line
  blanks
  atEnd
  return lines.filterMap id

/-! ## Filling tables -/

/-- The entries of a document so far, and the path of the table that is being filled. -/
structure Draft where
  entries : Node.Entries
  /-- The path of the last header. -/
  current : List String

namespace Draft

def empty : Draft := ⟨[], []⟩

def add? (d : Draft) : Statement → Option Draft
  | .entry k v =>
    (d.entries.within? (Node.Entries.insert? k.name v k.path) d.current).map fun es =>
      { d with entries := es }
  | .table k =>
    (d.entries.within? (Node.Entries.openTable? k.name) k.path).map fun es => ⟨es, k.names⟩
  | .element k =>
    (d.entries.within? (Node.Entries.openElement? k.name) k.path).map fun es => ⟨es, k.names⟩

end Draft

/-- What a document holds: a table, unless its first key is the reserved one. -/
def parse? (s : String) : Option Value := do
  let (ss, _) ← statements.run s.toList
  let d ← ss.foldlM Draft.add? Draft.empty
  (Value.table (Node.entriesToTable d.entries)).settle?

end Numeral.Toml
