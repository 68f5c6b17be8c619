import Numeral.Binary64.Basic

/-!
# TOML values

What a TOML document holds.  The entries of a table stand in the order of the document; whoever
needs another order sorts them.
-/

namespace Numeral.Toml

inductive Value where
  | string (s : String)
  /-- An integer of 64 bits. -/
  | integer (n : Int)
  | float (x : Binary64)
  | boolean (b : Bool)
  /-- A date, a time or both, as the document spells it. -/
  | datetime (spelling : String)
  | array (items : List Value)
  | table (entries : List (String × Value))

abbrev Table := List (String × Value)

namespace Value

def asString? : Value → Option String
  | string s => some s
  | _ => none

def asArray? : Value → Option (List Value)
  | array items => some items
  | _ => none

def asTable? : Value → Option Table
  | table entries => some entries
  | _ => none

end Value

def Table.sorted (t : Table) : List (String × Value) :=
  t.mergeSort fun a b => (compare a.1 b.1).isLE

end Numeral.Toml
