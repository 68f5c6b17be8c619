/-!
# Keywords

Options whose value is one word out of a few: the style of a number, the label of a currency and
the way in which locales are matched.  The words are case-sensitive.
-/

namespace Numeral

/-- A type whose values are named by words. -/
class Keyword (α : Type) where
  all : List α
  word : α → String

/-- The value that a word names. -/
def Keyword.ofWord? {α : Type} [Keyword α] (s : String) : Option α :=
  (Keyword.all (α := α)).find? fun a => word a == s

inductive StyleName where
  | decimal
  | percent
  | currency
  deriving DecidableEq, Repr

instance : Keyword StyleName where
  all := [.decimal, .percent, .currency]
  word
    | .decimal => "decimal"
    | .percent => "percent"
    | .currency => "currency"

/-- How a currency is labelled. -/
inductive CurrencyDisplay where
  /-- By its code: `USD`. -/
  | code
  /-- By the symbol that the locale has for it: `$`. -/
  | symbol
  /-- By its name: `US dollars`. -/
  | name
  deriving DecidableEq, Repr

instance : Keyword CurrencyDisplay where
  all := [.code, .symbol, .name]
  word
    | .code => "code"
    | .symbol => "symbol"
    | .name => "name"

/-- How a requested locale is matched with the available ones. -/
inductive LocaleMatcher where
  /-- By the longest available beginning of the tag. -/
  | lookup
  /-- Likewise, and else by the language alone. -/
  | bestFit
  deriving DecidableEq, Repr

instance : Keyword LocaleMatcher where
  all := [.lookup, .bestFit]
  word
    | .lookup => "lookup"
    | .bestFit => "best fit"

/-- The words of each of these types tell its values apart. -/
@[simp]
theorem StyleName.ofWord?_word (a : StyleName) : Keyword.ofWord? (Keyword.word a) = some a := by
  cases a <;> decide

@[simp]
theorem CurrencyDisplay.ofWord?_word (a : CurrencyDisplay) :
    Keyword.ofWord? (Keyword.word a) = some a := by
  cases a <;> decide

@[simp]
theorem LocaleMatcher.ofWord?_word (a : LocaleMatcher) :
    Keyword.ofWord? (Keyword.word a) = some a := by
  cases a <;> decide

end Numeral
