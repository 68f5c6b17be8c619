/-!
# Malformed locale data

What can be wrong with the tags and the documents that a locale database is made of.
-/

namespace Numeral

/-- What is wrong with locale data. -/
inductive Malformation where
  /-- A document is not a table. -/
  | root
  | defaultLocale
  | tag (text : String)
  | settings (locale : String)
  | field (key locale : String)
  | numberingSystem (locale : String)
  | currencySymbol (code locale : String)
  | currencies
  | currency (code : String)
  /-- A field of a currency is absent or not a text. -/
  | currencyField (key code : String)
  | locales
  deriving DecidableEq, Repr

def Malformation.message : Malformation → String
  | .root => "Root is not a table"
  | .defaultLocale => "default_locale is not a string"
  | .tag text => s!"Invalid locale tag {text}"
  | .settings locale => s!"Locale setting {locale} is not a table"
  | .field key locale => s!"Invalid {key} in {locale}"
  | .numberingSystem locale => s!"Invalid numbering system in {locale}"
  | .currencySymbol code locale => s!"Invalid currency symbol {code} in {locale}"
  | .currencies => "currencies is not a table"
  | .currency code => s!"currencies.{code} is not a table"
  | .currencyField key code => s!"Missing or invalid {key} in currencies.{code}"
  | .locales => "locales is not a table"

/-- Why a locale database cannot be read. -/
inductive LoadError where
  | notToml
  | malformed (cause : Malformation)
  deriving DecidableEq, Repr

def LoadError.message : LoadError → String
  | .notToml => "Error parsing locale data"
  | .malformed cause => s!"Malformed locale data: {cause.message}"

end Numeral
