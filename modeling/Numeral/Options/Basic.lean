import Std.Data.TreeMap
import Numeral.Options.Keyword
import Numeral.Value.Coercion
import Numeral.Value.Text

/-!
# Options

Options are loosely typed values under names.  An option is read as a keyword, a number within
bounds, a truth value or a text; an absent option, and one that is null, has its default.
-/

namespace Numeral

/-- Loosely typed values under the names of options. -/
abbrev Options := Std.TreeMap String Value

/-- What is wrong with an option. -/
inductive OptionError where
  /-- The value is of the wrong type or none of those that the option admits. -/
  | invalid (option : String) (value : Value)
  /-- The value is not a number from `min` to `max`. -/
  | outOfRange (option : String) (value : Value) (min max : Nat)
  /-- The option is absent though another setting needs it. -/
  | missing (option requiredBy : String)

def OptionError.message : OptionError → String
  | invalid option value => s!"Invalid value {value.describe} for option {option}"
  | outOfRange option value min max =>
    s!"Value {value.describe} for option {option} is out of range {min}..={max}"
  | missing option requiredBy => s!"Option {option} is required with {requiredBy}"

namespace Options

/-- The value of an option that is neither absent nor null. -/
def given? (o : Options) (name : String) : Option Value :=
  o[name]?.filter fun v => !v.isNull

/-- Reads an option that is one of the keywords of a type. -/
def keyword {α : Type} [Keyword α] (o : Options) (name : String) (default : α) :
    Except OptionError α :=
  match o.given? name with
  | none => .ok default
  | some v =>
    match v.asString?.bind Keyword.ofWord? with
    | some a => .ok a
    | none => .error (.invalid name v)

/-- Reads an option that is a number from `min` to `max`, and takes its whole part. -/
def count (o : Options) (name : String) (min max default : Nat) : Except OptionError Nat :=
  match o.given? name with
  | none => .ok default
  | some v =>
    match v.toNumber?.bind (Binary64.wholeWithin? min max) with
    | some n => .ok n
    | none => .error (.outOfRange name v min max)

def truth (o : Options) (name : String) (default : Bool) : Bool :=
  ((o.given? name).map Value.toBool).getD default

/-- Reads an option that is a text and has no default. -/
def text? (o : Options) (name : String) : Except OptionError (Option String) :=
  match o.given? name with
  | none => .ok none
  | some v =>
    match v.asString? with
    | some s => .ok (some s)
    | none => .error (.invalid name v)

end Options

end Numeral
