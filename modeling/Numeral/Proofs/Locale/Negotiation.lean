import Numeral.Locale.Negotiation
import Numeral.NumberingSystem
import Numeral.Proofs.Locale.Database

/-!
# What is agreed on

A locale that is found is available, and an available locale is found under its own tag.
`resolveTags_eq` says what is agreed on by the locale, the numbering system that is asked for and
the one that the tag names which decided on the locale.
-/

namespace Numeral.Database

variable {db : Database}

theorem canonicalize_singleton {s : String} {t : LanguageTag}
    (h : LanguageTag.parse? s = some t) : canonicalize [s] = .ok [t] := by
  rw [canonicalize, List.foldlM_cons, h]
  rfl

/-! ### Matching -/

theorem contains_of_lookupReversed? {ss : List Subtag} {l : String}
    (h : db.lookupReversed? ss = some l) : db.contains l = true := by
  fun_induction db.lookupReversed? ss with
  | case1 => cases h
  | case2 s rest tag hc => rwa [← Option.some.inj h]
  | case3 s rest tag hc ih => exact ih h

theorem contains_of_bestAvailable? {base l : String} {matcher : LocaleMatcher}
    (h : db.bestAvailable? base matcher = some l) : db.contains l = true := by
  have hsame : ∀ l, db.sameLanguage? base = some l → db.contains l = true := by
    intro l hl
    have hm := List.mem_of_find?_eq_some hl
    rw [availableLocales, Std.TreeMap.mem_keys] at hm
    exact hm
  cases matcher with
  | lookup => exact contains_of_lookupReversed? h
  | bestFit =>
    rcases Option.or_eq_some_iff.mp h with h | ⟨-, h⟩
    · exact contains_of_lookupReversed? h
    · exact hsame l h

theorem lookup?_of_contains {l : String} (h : db.contains l = true) : db.lookup? l = some l := by
  cases hs : (Subtag.split l).reverse with
  | nil => exact absurd (List.reverse_eq_nil_iff.mp hs) (Subtag.split_ne_nil l)
  | cons s rest =>
    have htag : Subtag.join (s :: rest).reverse = l := by
      rw [← hs, List.reverse_reverse, Subtag.join_split]
    rw [lookup?, hs, lookupReversed?]
    simp only [htag]
    rw [if_pos h]

/-- An available locale is matched with itself, whatever the matcher. -/
theorem bestAvailable?_of_contains {l : String} (h : db.contains l = true)
    (matcher : LocaleMatcher) : db.bestAvailable? l matcher = some l := by
  cases matcher with
  | lookup => exact lookup?_of_contains h
  | bestFit => rw [bestAvailable?, lookup?_of_contains h, Option.some_or]

/-- The first of some tags that is matched with an available locale, behind that locale. -/
def matched? (db : Database) (tags : List LanguageTag) (matcher : LocaleMatcher) :
    Option (String × LanguageTag) :=
  tags.findSome? fun t => (db.bestAvailable? t.baseName matcher).map fun l => (l, t)

/-- The locale that is agreed on for some tags. -/
def agreedLocale (db : Database) (tags : List LanguageTag) (matcher : LocaleMatcher) : String :=
  ((db.matched? tags matcher).map Prod.fst).getD db.defaultLocale

/-- The numbering system that the tag names which decided on the locale. -/
def taggedNumberingSystem? (db : Database) (tags : List LanguageTag) (matcher : LocaleMatcher) :
    Option String :=
  ((db.matched? tags matcher).map Prod.snd).bind (·.keyword? "nu")

theorem contains_of_matched? {tags : List LanguageTag} {matcher : LocaleMatcher} {l : String}
    {t : LanguageTag} (h : db.matched? tags matcher = some (l, t)) : db.contains l = true := by
  obtain ⟨u, -, hu⟩ := List.exists_of_findSome?_eq_some h
  obtain ⟨l', hl, he⟩ := Option.map_eq_some_iff.mp hu
  cases he
  exact contains_of_bestAvailable? hl

theorem isBaseName_agreedLocale (hdb : db.IsCanonical) (tags : List LanguageTag)
    (matcher : LocaleMatcher) : IsBaseName (db.agreedLocale tags matcher) := by
  rw [agreedLocale]
  cases h : db.matched? tags matcher with
  | none => exact hdb.defaultLocale
  | some p => exact hdb.locales _ (contains_of_matched? h)

theorem contains_agreedLocale (hdefault : db.contains db.defaultLocale = true)
    (tags : List LanguageTag) (matcher : LocaleMatcher) :
    db.contains (db.agreedLocale tags matcher) = true := by
  rw [agreedLocale]
  cases h : db.matched? tags matcher with
  | none => exact hdefault
  | some p => exact contains_of_matched? h

/-! ### The numbering system -/

/-- What is agreed on for a locale, if the numbering system `wanted` is asked for and the tag that
decided on the locale names `tagged`. -/
def agreement (db : Database) (locale : String) (wanted tagged : Option String) : Negotiated :=
  match wanted.filter (db.settingsOrDefault locale).usesNumberingSystem with
  | some nu => ⟨locale, if tagged = some nu then "-u-nu-" ++ nu else "", some nu⟩
  | none => ⟨locale, "", some (db.settingsOrDefault locale).defaultNumberingSystem⟩

theorem locale_agreement (db : Database) (locale : String) (wanted tagged : Option String) :
    (db.agreement locale wanted tagged).locale = locale := by
  rw [agreement]
  split
  · rfl
  · rfl

theorem resolveTags_eq (db : Database) (tags : List LanguageTag)
    (extensions : Std.TreeMap String String) (matcher : LocaleMatcher) :
    db.resolveTags tags extensions matcher =
      db.agreement (db.agreedLocale tags matcher)
        (extensions["nu"]?.or (db.taggedNumberingSystem? tags matcher))
        (db.taggedNumberingSystem? tags matcher) := by
  rw [resolveTags, agreement]
  simp only [beq_iff_eq]
  rfl

end Numeral.Database
