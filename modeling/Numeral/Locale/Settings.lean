import Std.Data.TreeMap

/-!
# Number settings of a locale

The signs and patterns with which a locale writes numbers.  In a pattern, `#` stands for the number,
`%` for the percent sign and `¤` for the currency.
-/

namespace Numeral

/-- The signs and patterns with which a locale writes numbers. -/
structure Settings where
  decimal : Char := '.'
  group : Char := ','
  /-- Stands before negative numbers, possibly with marks of text direction. -/
  minus : String := "-"
  percent : String := "%"
  nan : String := "NaN"
  infinity : String := "∞"
  percentPattern : String := "#%"
  currencyPattern : String := "¤#"
  /-- The identifiers of the numbering systems in use, the usual one first. -/
  numberingSystems : List String := ["latn"]
  /-- The symbols of currencies in this locale, by code. -/
  currencySymbols : Std.TreeMap String String := ∅

namespace Settings

/-- The settings of a locale about which nothing is known. -/
def plain : Settings := {}

/-- The numbering system that is used when no other is asked for. -/
def defaultNumberingSystem (s : Settings) : String := s.numberingSystems.headD "latn"

def usesNumberingSystem (s : Settings) (name : String) : Bool := s.numberingSystems.contains name

end Settings

end Numeral
