import Numeral.Engine.Basic
import Numeral.Options.Basic

/-!
# Resolved options

The effective configuration of a formatter, as it is told to callers: what the options asked for,
and the locale and numbering system that the engine uses.
-/

namespace Numeral

/-- The effective configuration of a formatter. -/
structure Resolved where
  locale : String
  numberingSystem : String
  style : Style
  useGrouping : Bool
  minimumIntegerDigits : Nat
  fractionDigits : DigitRange
  significantDigits : Option DigitRange
  deriving DecidableEq

namespace Resolved

/-- The effective configuration for a checked one and what the engine reports. -/
def ofConfig (config : Config) (reported : Reported) : Resolved where
  locale := reported.locale
  numberingSystem := reported.numberingSystem
  style := config.style
  useGrouping := config.useGrouping
  minimumIntegerDigits := config.minimumIntegerDigits
  fractionDigits := config.fractionDigits
  significantDigits := config.significantDigits

/-- The fields of the record that only the currency style has. -/
def currencyFields : Style → List (String × Value)
  | .currency code display =>
    [("currency", .string code.text), ("currencyDisplay", .string (Keyword.word display))]
  | _ => []

/-- The fields of the record that only bounds on the significant digits bring. -/
def significantFields : Option DigitRange → List (String × Value)
  | some range =>
    [("minimumSignificantDigits", .ofNat range.minimum),
      ("maximumSignificantDigits", .ofNat range.maximum)]
  | none => []

/-- The record of the effective configuration, under the names of the options. -/
def toRecord (r : Resolved) : List (String × Value) :=
  [("locale", .string r.locale), ("numberingSystem", .string r.numberingSystem),
    ("style", .string (Keyword.word r.style.name))] ++
  currencyFields r.style ++
  [("useGrouping", .bool r.useGrouping),
    ("minimumIntegerDigits", .ofNat r.minimumIntegerDigits),
    ("minimumFractionDigits", .ofNat r.fractionDigits.minimum),
    ("maximumFractionDigits", .ofNat r.fractionDigits.maximum)] ++
  significantFields r.significantDigits

/-- The record as options that ask for the same. -/
def toOptions (r : Resolved) : Options := .ofList r.toRecord

end Resolved

end Numeral
