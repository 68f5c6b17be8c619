import Numeral.Conventions.Reading
import Numeral.Conventions.Writing
import Numeral.Engine.Basic

/-!
# The standard engine

The engine that writes and reads numbers by the conventions of a locale database.
-/

namespace Numeral

/-- The tag handed to the engine is malformed. -/
structure UnsupportedLocale where
  tag : String
  deriving DecidableEq, Repr

def UnsupportedLocale.message (e : UnsupportedLocale) : String :=
  s!"Unsupported locale tag: {e.tag}"

namespace Conventions

/-- What is reported for a tag: its base name, with the numbering system if the tag names a usable
one, and the numbering system in use. -/
def report (db : Database) (tag : LanguageTag) (suggested : String) : Reported where
  locale := match named? db tag with
    | some nu => tag.baseName ++ "-u-nu-" ++ nu.name
    | none => tag.baseName
  numberingSystem := (numberingSystemFor db tag suggested).name

/-- The conventions for the text of a tag, and what is reported for it. -/
def build (db : Database) (tag : String) (config : Config) (given : Reported) :
    Except UnsupportedLocale (Conventions × Reported) :=
  match LanguageTag.parse? tag with
  | some t => .ok (ofTag db t config given.numberingSystem, report db t given.numberingSystem)
  | none => .error ⟨tag⟩

end Conventions

def Database.engine (db : Database) {m : Type → Type} [Monad m] :
    Engine m Conventions UnsupportedLocale where
  build tag config given := ExceptT.mk (pure (Conventions.build db tag config given))
  format c x := pure (String.ofList (c.write x))
  parse c text := pure (c.read text.toList)

end Numeral
