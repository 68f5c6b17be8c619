import Numeral.Locale.Malformation
import Numeral.Locale.Settings
import Numeral.Locale.Tag

/-!
# Locale databases

A database has the settings of locales under their canonical tags, the currencies with their
symbols and names, and the locale that is used when nothing requested is available.  Tags of either
case and with underscores are taken; extensions are dropped.
-/

namespace Numeral

/-- What a locale database tells about a currency. -/
structure Currency where
  /-- The symbol where a locale has none of its own. -/
  symbol : String
  name : String
  deriving DecidableEq, Repr

/-- The settings of locales and the names of currencies. -/
structure Database where
  /-- The locale that is used when nothing requested is available. -/
  defaultLocale : String
  locales : Std.TreeMap String Settings
  /-- The currencies by code. -/
  currencies : Std.TreeMap String Currency

namespace Database

def empty : Database := ⟨"en-US", ∅, ∅⟩

/-- The canonical form of a locale's tag: its base name. -/
def canonicalTag (tag : String) : Except Malformation String :=
  match LanguageTag.parse? tag with
  | some t => .ok t.baseName
  | none => .error (.tag tag)

def withDefaultLocale (db : Database) (tag : String) : Except Malformation Database :=
  (canonicalTag tag).map fun t => { db with defaultLocale := t }

/-- The database with the settings of one locale added or replaced. -/
def withLocale (db : Database) (tag : String) (s : Settings) : Except Malformation Database :=
  (canonicalTag tag).map fun t => { db with locales := db.locales.insert t s }

/-- Whether a locale is available under exactly this tag. -/
def contains (db : Database) (locale : String) : Bool := db.locales.contains locale

def settings? (db : Database) (locale : String) : Option Settings := db.locales[locale]?

/-- The settings of a locale, or those of one about which nothing is known. -/
def settingsOrDefault (db : Database) (locale : String) : Settings :=
  (db.settings? locale).getD Settings.plain

def currency? (db : Database) (code : String) : Option Currency := db.currencies[code]?

/-- The tags of the available locales, in the order of their characters. -/
def availableLocales (db : Database) : List String := db.locales.keys

end Database

end Numeral
