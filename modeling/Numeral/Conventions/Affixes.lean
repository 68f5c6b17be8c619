import Numeral.Locale.Database
import Numeral.Options.Config

/-!
# Affixes

The texts before and after a number that a style calls for.  A pattern gives them: its first `#`
parts them, `¤` stands for the label of the currency and `%` for the percent sign.
-/

namespace Numeral

/-- The texts before and after a number. -/
structure Affixes where
  leading : List Char
  trailing : List Char
  deriving DecidableEq, Repr

namespace Affixes

def none : Affixes := ⟨[], []⟩

/-- What a character of a pattern stands for. -/
def expand (currency percent : List Char) (c : Char) : List Char :=
  if c = '#' then [] else if c = '¤' then currency else if c = '%' then percent else [c]

def ofPattern (pattern currency percent : List Char) : Affixes where
  leading := (pattern.takeWhile (· != '#')).flatMap (expand currency percent)
  trailing := (pattern.dropWhile (· != '#')).flatMap (expand currency percent)

/-- The pattern with a no-break space between the number and a currency right next to it. -/
def spaceCurrency : List Char → List Char
  | [] => []
  | c :: cs =>
    let besides := (c = '¤' ∧ cs.head? = some '#') ∨ (c = '#' ∧ cs.head? = some '¤')
    if besides then c :: '\u00a0' :: spaceCurrency cs else c :: spaceCurrency cs

/-- The label of a currency.  The symbol is that of the locale if it has one of its own, and where
nothing is known the label is the code. -/
def currencyLabel (db : Database) (s : Settings) (code : CurrencyCode) :
    CurrencyDisplay → String
  | .code => code.text
  | .symbol =>
    (s.currencySymbols[code.text]?.or ((db.currency? code.text).map (·.symbol))).getD code.text
  | .name => ((db.currency? code.text).map (·.name)).getD code.text

def currencyPattern (s : Settings) : CurrencyDisplay → List Char
  | .code => spaceCurrency s.currencyPattern.toList
  | .symbol => s.currencyPattern.toList
  | .name => "# ¤".toList

def ofStyle (db : Database) (s : Settings) : Style → Affixes
  | .decimal => none
  | .percent => ofPattern s.percentPattern.toList [] s.percent.toList
  | .currency code display =>
    ofPattern (currencyPattern s display) (currencyLabel db s code display).toList s.percent.toList

end Affixes

end Numeral
