import Numeral.Locale.Extension

/-!
# Language tags

A language identifier and the attributes and keywords of its `u` extension, in canonical form:
`ar-EG-u-nu-latn`.  Underscores are read as hyphens and letters of either case are taken; whether
there is such a language or region is not asked.
-/

namespace Numeral

/-- A language tag in canonical form. -/
structure LanguageTag where
  id : Identifier
  extension : UnicodeExtension
  deriving DecidableEq, Repr

namespace LanguageTag

/-- Reads the subtags of a language tag.  What follows the identifier has to be an extension. -/
def ofSubtags? (ss : List Subtag) : Option LanguageTag := do
  let (id, rest) ← Identifier.scan? ss
  if (rest.take 1).all (·.size == 1) then
    let extension ← Extension.scan? [] rest
    some ⟨id, extension⟩
  else none

def parse? (s : String) : Option LanguageTag :=
  ofSubtags? (Subtag.split (s.map fun c => if c = '_' then '-' else c))

/-- The tag without its extension. -/
def baseName (t : LanguageTag) : String := Subtag.join t.id.subtags

def language (t : LanguageTag) : String := String.ofList t.id.language

def toText (t : LanguageTag) : String := Subtag.join (t.id.subtags ++ t.extension.subtags)

/-- The value of a keyword of the tag.  A keyword without a value has the value `true`. -/
def keyword? (t : LanguageTag) (key : String) : Option String :=
  if Subtag.isKey key.toList then
    (t.extension.keywords.lookup (Subtag.lower key.toList)).map fun parts =>
      if parts.isEmpty then "true" else Subtag.join parts
  else none

end LanguageTag

end Numeral
