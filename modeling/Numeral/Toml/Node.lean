import Numeral.Toml.Value

/-!
# Tables under construction

The statements of a document fill its tables piece by piece, and some tables may be filled only in
some ways.  A table that a header names is complete with the entries under that header.  A table
that headers only pass through may get a header of its own later, once.  A table that dotted keys
make may be filled by more dotted keys next to them.  Values, and with them tables in braces, are
complete.
-/

namespace Numeral.Toml

/-- How a table came to be. -/
inductive TableKind where
  /-- A header names it. -/
  | headed
  /-- A longer header passes through it. -/
  | implied
  /-- A dotted key passes through it. -/
  | dotted
  deriving DecidableEq, Repr

/-- What stands under a key while a document is read. -/
inductive Node where
  | leaf (v : Value)
  | table (kind : TableKind) (entries : List (String × Node))
  /-- An array of tables.  Only the last one is still filled. -/
  | tables (earlier : List (List (String × Node))) (last : List (String × Node))

namespace Node

/-- What stands under the keys of a table while a document is read. -/
abbrev Entries := List (String × Node)

/-- Replaces what stands under a key, or adds a key. -/
def Entries.put (key : String) (n : Node) : Entries → Entries
  | [] => [(key, n)]
  | (k, m) :: es => if k = key then (k, n) :: es else (k, m) :: Entries.put key n es

/-- Adds a value under a dotted key. -/
def Entries.insert? (name : String) (v : Value) : List String → Entries → Option Entries
  | [], es => if (es.lookup name).isSome then none else some (es.put name (.leaf v))
  | p :: ps, es =>
    match es.lookup p with
    | none => (insert? name v ps []).map fun sub => es.put p (.table .dotted sub)
    | some (.leaf _) => none
    | some (.table kind sub) =>
      if kind = .headed || (ps.isEmpty && kind != .dotted) then none
      else (insert? name v ps sub).map fun sub => es.put p (.table kind sub)
    | some (.tables earlier last) =>
      if ps.isEmpty then none
      else (insert? name v ps last).map fun last => es.put p (.tables earlier last)

/-- Changes the table at the end of a header's path.  Tables on the way that are not there yet are
added, and of an array of tables the last one is entered. -/
def Entries.within? (f : Entries → Option Entries) : List String → Entries → Option Entries
  | [], es => f es
  | p :: ps, es =>
    match es.lookup p with
    | none => (within? f ps []).map fun sub => es.put p (.table .implied sub)
    | some (.leaf _) => none
    | some (.table kind sub) => (within? f ps sub).map fun sub => es.put p (.table kind sub)
    | some (.tables earlier last) =>
      (within? f ps last).map fun last => es.put p (.tables earlier last)

/-- Makes room for the entries under the header of a table.  A table that was only implied moves to
where its header stands. -/
def Entries.openTable? (name : String) (es : Entries) : Option Entries :=
  match es.lookup name with
  | none => some (es.put name (.table .headed []))
  | some (.table .implied sub) =>
    some (es.filter (·.1 != name) ++ [(name, .table .headed sub)])
  | some _ => none

/-- Makes room for the entries under the header of another table of an array. -/
def Entries.openElement? (name : String) (es : Entries) : Option Entries :=
  match es.lookup name with
  | none => some (es.put name (.tables [] []))
  | some (.tables earlier last) => some (es.put name (.tables (earlier ++ [last]) []))
  | some _ => none

mutual

/-- The value that a node stands for when the document ends. -/
def toValue : Node → Value
  | leaf v => v
  | table _ es => .table (entriesToTable es)
  | tables earlier last => .array (tablesToItems earlier ++ [.table (entriesToTable last)])

def entriesToTable : List (String × Node) → Table
  | [] => []
  | (k, n) :: es => (k, n.toValue) :: entriesToTable es

def tablesToItems : List (List (String × Node)) → List Value
  | [] => []
  | es :: ts => .table (entriesToTable es) :: tablesToItems ts

end

end Node

end Numeral.Toml
