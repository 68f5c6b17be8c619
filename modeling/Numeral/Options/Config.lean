import Numeral.Options.Keyword
import Numeral.Decimal.Rounding

/-!
# Configurations

What a formatter is asked to do, with every option checked and every default filled in.
-/

namespace Numeral

/-- Whether this is the text of a currency code: three capital letters of ASCII. -/
def IsCurrencyCode (s : String) : Prop :=
  s.toList.length = 3 ∧ ∀ c ∈ s.toList, c.isUpper

instance (s : String) : Decidable (IsCurrencyCode s) :=
  @instDecidableAnd _ _ _ (List.decidableBAll _ s.toList)

/-- A currency code.  Whether there is such a currency is not asked. -/
structure CurrencyCode where
  text : String
  isCurrencyCode : IsCurrencyCode text
  deriving DecidableEq

namespace CurrencyCode

/-- Whether a text has the shape of a currency code: three letters of ASCII. -/
def isWellFormed (s : String) : Bool :=
  s.toList.length == 3 && s.toList.all Char.isAlpha

/-- The currency code that a text spells, in letters of either case. -/
def parse? (s : String) : Option CurrencyCode :=
  if h : IsCurrencyCode s.toUpper then some ⟨s.toUpper, h⟩ else none

end CurrencyCode

/-- The style of a number, with what the currency style needs. -/
inductive Style where
  | decimal
  | percent
  | currency (code : CurrencyCode) (display : CurrencyDisplay)
  deriving DecidableEq

namespace Style

def name : Style → StyleName
  | decimal => .decimal
  | percent => .percent
  | currency _ _ => .currency

def currencyCode? : Style → Option CurrencyCode
  | currency code _ => some code
  | _ => none

def currencyDisplay? : Style → Option CurrencyDisplay
  | currency _ display => some display
  | _ => none

end Style

/-- The checked options of a formatter. -/
structure Config where
  style : Style := .decimal
  minimumIntegerDigits : Nat := 1
  fractionDigits : DigitRange := ⟨0, 3⟩
  /-- Bounds on the significant digits; if there are any, they win over those after the point. -/
  significantDigits : Option DigitRange := none
  useGrouping : Bool := true
  localeMatcher : LocaleMatcher := .bestFit
  numberingSystem : Option String := none
  deriving DecidableEq

end Numeral
