import Numeral.Locale.Database
import Numeral.Options.Keyword

/-!
# Locale negotiation

Which available locale answers a list of requested tags.  A tag is looked up by its base name, then
by ever shorter beginnings of it; the best fit after that is any locale of the same language.  The
first requested tag that has an available locale decides, and else it is the default locale.
-/

namespace Numeral

/-- The locale that was agreed on. -/
structure Negotiated where
  /-- The tag without extensions. -/
  locale : String
  /-- The extension that is honored, with its hyphen, or nothing. -/
  extension : String
  numberingSystem : Option String
  deriving DecidableEq, Repr

def Negotiated.fullTag (n : Negotiated) : String := n.locale ++ n.extension

/-- The requested tags, the most wanted one first. -/
abbrev Locales := List String

/-- The tags of a request in canonical form, and each of them once; or the first malformed tag. -/
def canonicalize (requested : Locales) : Except String (List LanguageTag) :=
  requested.foldlM (fun tags text =>
    match LanguageTag.parse? text with
    | none => .error text
    | some t => .ok (if (tags.map (·.toText)).contains t.toText then tags else tags ++ [t])) []

namespace Database

/-- Drops the last of some subtags, which stand in reverse order, and the one before it too if that
is a single character.  The first subtag of a tag is never dropped as a single character. -/
def shorten : List Subtag → List Subtag
  | [] => []
  | _ :: rest =>
    match rest with
    | s :: t :: ss => if s.size = 1 then t :: ss else rest
    | _ => rest

theorem length_shorten_lt (s : Subtag) (ss : List Subtag) :
    (shorten (s :: ss)).length < (s :: ss).length := by
  simp only [shorten]
  split
  · split <;> simp
  · simp

/-- The longest available beginning of a tag, whose subtags stand in reverse order. -/
def lookupReversed? (db : Database) (ss : List Subtag) : Option String :=
  match ss with
  | [] => none
  | s :: rest =>
    let tag := Subtag.join (s :: rest).reverse
    if db.contains tag then some tag else db.lookupReversed? (shorten (s :: rest))
termination_by ss.length
decreasing_by exact length_shorten_lt s rest

def lookup? (db : Database) (base : String) : Option String :=
  db.lookupReversed? (Subtag.split base).reverse

def firstSubtag (s : String) : Subtag := s.toList.takeWhile (· != '-')

/-- The first available locale of the same language. -/
def sameLanguage? (db : Database) (base : String) : Option String :=
  db.availableLocales.find? fun locale => firstSubtag locale == firstSubtag base

/-- The available locale that a base name is matched with. -/
def bestAvailable? (db : Database) (base : String) (matcher : LocaleMatcher) : Option String :=
  match matcher with
  | .lookup => db.lookup? base
  | .bestFit => (db.lookup? base).or (db.sameLanguage? base)

/-- The numbering system that is asked for, by the extension options before the tag. -/
def wantedNumberingSystem? (extensions : Std.TreeMap String String) (tag : Option LanguageTag) :
    Option String :=
  extensions["nu"]?.or (tag.bind (·.keyword? "nu"))

/-- The locale for some tags in canonical form.  The numbering system that is asked for is used if
the locale has it, and stays in the tag if it is the one that the tag names. -/
def resolveTags (db : Database) (tags : List LanguageTag)
    (extensions : Std.TreeMap String String) (matcher : LocaleMatcher) : Negotiated :=
  let found := tags.findSome? fun t =>
    (db.bestAvailable? t.baseName matcher).map fun locale => (locale, t)
  let locale := (found.map Prod.fst).getD db.defaultLocale
  let tag := found.map Prod.snd
  let s := db.settingsOrDefault locale
  match (wantedNumberingSystem? extensions tag).filter s.usesNumberingSystem with
  | some nu =>
    let kept := tag.bind (·.keyword? "nu") == some nu
    ⟨locale, if kept then "-u-nu-" ++ nu else "", some nu⟩
  | none => ⟨locale, "", some s.defaultNumberingSystem⟩

/-- The locale for a request, or the first malformed tag. -/
def resolve (db : Database) (requested : Locales) (extensions : Std.TreeMap String String)
    (matcher : LocaleMatcher) : Except String Negotiated :=
  (canonicalize requested).map fun tags => db.resolveTags tags extensions matcher

/-- The base names of the requested tags that have an available locale, each of them once. -/
def supportedTags (db : Database) (tags : List LanguageTag) (matcher : LocaleMatcher) :
    List String :=
  ((tags.map (·.baseName)).filter fun base => (db.bestAvailable? base matcher).isSome).eraseDups

def supported (db : Database) (requested : Locales) (matcher : LocaleMatcher) :
    Except String (List String) :=
  (canonicalize requested).map fun tags => db.supportedTags tags matcher

end Database

end Numeral
