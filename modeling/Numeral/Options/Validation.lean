import Numeral.Options.Basic
import Numeral.Options.Config

/-!
# Checking options

Options are checked one after the other, and the first bad one is the error.  An option that no
style or bound asks for is not looked at, with one exception: a currency code has to be well-formed
under every style.
-/

namespace Numeral

/-- Whether a text has the shape of a type in a locale tag: three to eight letters and digits of
ASCII. -/
def isUnicodeType (s : String) : Bool :=
  3 ≤ s.toList.length && s.toList.length ≤ 8 && s.toList.all Char.isAlphanum

namespace Options

def localeMatcher (o : Options) : Except OptionError LocaleMatcher :=
  o.keyword "localeMatcher" .bestFit

def currencyCode? (o : Options) : Except OptionError (Option CurrencyCode) := do
  match ← o.text? "currency" with
  | none => return none
  | some s =>
    match CurrencyCode.parse? s with
    | some code => return some code
    | none => throw (.invalid "currency" (.string s))

/-- The style, with the currency and its label for the currency style. -/
def style (o : Options) : Except OptionError Style := do
  let name ← o.keyword "style" StyleName.decimal
  let code? ← o.currencyCode?
  match name with
  | .decimal => return .decimal
  | .percent => return .percent
  | .currency =>
    match code? with
    | none => throw (.missing "currency" "style \"currency\"")
    | some code => return .currency code (← o.keyword "currencyDisplay" .symbol)

/-- The bounds on the digits after the point.  The greatest number of them is at least the least
one. -/
def fractionDigits (o : Options) : Except OptionError DigitRange := do
  let minimum ← o.count "minimumFractionDigits" 0 20 0
  let maximum ← o.count "maximumFractionDigits" minimum 20 (max 3 minimum)
  return ⟨minimum, maximum⟩

/-- The bounds on the significant digits, if one of the two is given. -/
def significantDigits (o : Options) : Except OptionError (Option DigitRange) := do
  if (o.given? "minimumSignificantDigits").isNone &&
      (o.given? "maximumSignificantDigits").isNone then
    return none
  let minimum ← o.count "minimumSignificantDigits" 1 21 1
  let maximum ← o.count "maximumSignificantDigits" minimum 21 21
  return some ⟨minimum, maximum⟩

def numberingSystem? (o : Options) : Except OptionError (Option String) := do
  match ← o.text? "numberingSystem" with
  | none => return none
  | some s =>
    if isUnicodeType s then return some s.toLower
    else throw (.invalid "numberingSystem" (.string s))

/-- The configuration that the options ask for, or the first error in them. -/
def validate (o : Options) : Except OptionError Config := do
  let localeMatcher ← o.localeMatcher
  let style ← o.style
  let minimumIntegerDigits ← o.count "minimumIntegerDigits" 1 21 1
  let fractionDigits ← o.fractionDigits
  let significantDigits ← o.significantDigits
  let useGrouping := o.truth "useGrouping" true
  let numberingSystem ← o.numberingSystem?
  return { style, minimumIntegerDigits, fractionDigits, significantDigits, useGrouping,
           localeMatcher, numberingSystem }

end Options

end Numeral
