import Numeral.Locale.Database

/-!
# The standard locale database

Eighteen locales and eight currencies.
-/

namespace Numeral.Database

def standardCurrencies : List (String × Currency) := [
  ("USD", ⟨"$", "US dollars"⟩),
  ("EUR", ⟨"€", "euros"⟩),
  ("GBP", ⟨"£", "British pounds"⟩),
  ("JPY", ⟨"¥", "Japanese yen"⟩),
  ("CNY", ⟨"CN¥", "Chinese yuan"⟩),
  ("INR", ⟨"₹", "Indian rupees"⟩),
  ("CHF", ⟨"CHF", "Swiss francs"⟩),
  ("EGP", ⟨"E£", "Egyptian pounds"⟩)]

/-- The settings that German and Spanish share: a comma before the fraction, points between groups,
and a no-break space before the percent sign and the currency. -/
def commaAndPoint : Settings where
  decimal := ','
  group := '.'
  percentPattern := "#\u00a0%"
  currencyPattern := "#\u00a0¤"

/-- French settings: as those with a comma and points, but narrow no-break spaces between groups. -/
def commaAndSpace : Settings := { commaAndPoint with group := '\u202f' }

def standardLocales : List (String × Settings) := [
  ("en", {}),
  ("en-US", {}),
  ("en-GB", {}),
  ("en-CA", { currencySymbols := .ofList [("USD", "US$"), ("CAD", "$")] }),
  ("de", commaAndPoint),
  ("de-DE", commaAndPoint),
  ("de-CH", { group := '’', currencyPattern := "¤\u00a0#" }),
  ("fr", commaAndSpace),
  ("fr-FR", commaAndSpace),
  ("es-ES", commaAndPoint),
  ("ja-JP", { currencySymbols := .ofList [("JPY", "￥")] }),
  ("zh-CN",
    { numberingSystems := ["latn", "hanidec"], currencySymbols := .ofList [("CNY", "¥")] }),
  ("zh-Hant-TW", { numberingSystems := ["latn", "hanidec"], nan := "非數值" }),
  ("ar-EG",
    { decimal := '٫', group := '٬', minus := "\u061c-", percent := "٪\u061c",
      nan := "ليس رقمًا", currencyPattern := "#\u00a0¤", numberingSystems := ["arab", "latn"] }),
  ("fa-IR",
    { decimal := '٫', group := '٬', minus := "\u200e\u2212", percent := "٪",
      numberingSystems := ["arabext", "latn"] }),
  ("hi-IN", { numberingSystems := ["latn", "deva"] }),
  ("bn-BD", { numberingSystems := ["beng", "latn"] }),
  ("th-TH", { numberingSystems := ["latn", "thai"] })]

def standard : Database where
  defaultLocale := "en-US"
  locales := .ofList standardLocales
  currencies := .ofList standardCurrencies

end Numeral.Database
