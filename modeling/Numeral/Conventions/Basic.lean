import Numeral.Conventions.Affixes
import Numeral.NumberingSystem

/-!
# Conventions

Everything that decides how one formatter writes and reads numbers: the settings of its locale, a
numbering system, its configuration and the affixes of its style.
-/

namespace Numeral

/-- How one formatter writes and reads numbers. -/
structure Conventions where
  settings : Settings
  numberingSystem : NumberingSystem
  config : Config
  affixes : Affixes

namespace Conventions

/-- The numbering system of an identifier, if it is in use in the locale and has known digits. -/
def usable? (s : Settings) (name : String) : Option NumberingSystem :=
  if s.usesNumberingSystem name then NumberingSystem.ofName? name else none

/-- The usable numbering system that a tag names. -/
def named? (db : Database) (tag : LanguageTag) : Option NumberingSystem :=
  (tag.keyword? "nu").bind (usable? (db.settingsOrDefault tag.baseName))

/-- The numbering system for a tag: the one that it names, else the suggested one, else the usual
one of the locale, as far as they are usable, and ASCII digits in the last resort. -/
def numberingSystemFor (db : Database) (tag : LanguageTag) (suggested : String) :
    NumberingSystem :=
  let s := db.settingsOrDefault tag.baseName
  (((named? db tag).or (usable? s suggested)).or (usable? s s.defaultNumberingSystem)).getD .latn

def ofTag (db : Database) (tag : LanguageTag) (config : Config) (suggested : String) :
    Conventions where
  settings := db.settingsOrDefault tag.baseName
  numberingSystem := numberingSystemFor db tag suggested
  config := config
  affixes := Affixes.ofStyle db (db.settingsOrDefault tag.baseName) config.style

end Conventions

end Numeral
