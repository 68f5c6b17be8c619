import Numeral.Proofs.Conventions.Build
import Numeral.Proofs.Formatter.Screening
import Numeral.Proofs.Locale.Keyword
import Numeral.Proofs.Locale.Negotiation
import Numeral.Proofs.Options.Validity

/-!
# Fallback never fails

The tag that a database agrees on is put together from a base name and the value of a keyword, which
come from other tags.  It is always read again, with the locale as its base name, so the standard
engine prepares for it over whatever database it works (`configured_of_valid`).
-/

namespace Numeral

/-- Nothing is at fault when the requested tags are well-formed and the options are valid. -/
theorem Formatter.firstFault_faults_eq_none_iff {ε : Type} {requested : Locales}
    {options : Options} :
    firstFault (faults ε requested options) = none ↔
      (∀ text ∈ requested, (LanguageTag.parse? text).isSome = true) ∧ options.IsValid := by
  rw [firstFault_faults, ← Options.firstFault_faults_eq_none_iff, Options.faults, firstFault_cons,
    Option.or_eq_none_iff, Option.or_eq_none_iff, Option.or_eq_none_iff, Option.map_eq_none_iff,
    Option.map_eq_none_iff, Option.map_eq_none_iff, firstFault_eq_none_iff, List.forall_mem_map]
  simp only [malformed?_eq_none_iff]
  exact and_left_comm

namespace Database

variable {db : Database}

theorem exists_parse?_of_canonicalize {requested : Locales} {tags : List LanguageTag}
    (h : canonicalize requested = .ok tags) :
    ∀ t ∈ tags, ∃ text, LanguageTag.parse? text = some t := by
  obtain ⟨-, rfl⟩ := canonicalize_eq_ok_iff.mp h
  intro t ht
  obtain ⟨text, -, hText⟩ := List.mem_filterMap.mp (mem_of_mem_distinct ht)
  exact ⟨text, hText⟩

theorem isKeywordValue_of_taggedNumberingSystem? {tags : List LanguageTag} {matcher : LocaleMatcher}
    {nu : String} (hTags : ∀ t ∈ tags, ∃ text, LanguageTag.parse? text = some t)
    (h : db.taggedNumberingSystem? tags matcher = some nu) : IsKeywordValue nu := by
  obtain ⟨t, ht, hKeyword⟩ := Option.bind_eq_some_iff.mp h
  obtain ⟨⟨l, t'⟩, hMatched, rfl⟩ := Option.map_eq_some_iff.mp ht
  obtain ⟨u, hu, hFound⟩ := List.exists_of_findSome?_eq_some hMatched
  obtain ⟨l', -, he⟩ := Option.map_eq_some_iff.mp hFound
  cases he
  obtain ⟨text, hText⟩ := hTags _ hu
  exact LanguageTag.isKeywordValue_of_keyword? hText hKeyword

/-- What is agreed on is a tag of its locale, if the requested tag names the value of a keyword. -/
theorem exists_parse?_agreement {locale : String} (hLocale : IsBaseName locale)
    {wanted tagged : Option String} (hTagged : ∀ nu ∈ tagged, IsKeywordValue nu) :
    ∃ t, LanguageTag.parse? (db.agreement locale wanted tagged).fullTag = some t ∧
      t.baseName = (db.agreement locale wanted tagged).locale := by
  obtain ⟨base, hBase, rfl⟩ := hLocale
  have hPlain := LanguageTag.parse?_baseName_append_empty hBase
  rw [agreement]
  split
  · rename_i nu _
    by_cases hKept : tagged = some nu
    · obtain ⟨e, he⟩ := LanguageTag.parse?_append_keyword hBase (hTagged nu hKept)
      rw [if_pos hKept, Negotiated.fullTag, ← String.append_assoc]
      exact ⟨_, he, rfl⟩
    · rw [if_neg hKept]
      exact ⟨_, hPlain, rfl⟩
  · exact ⟨_, hPlain, rfl⟩

/-- **The tag that is agreed on is read again**, and its base name is the locale. -/
theorem exists_parse?_of_resolve (hdb : db.IsCanonical) {requested : Locales}
    {extensions : Std.TreeMap String String} {matcher : LocaleMatcher} {n : Negotiated}
    (h : db.resolve requested extensions matcher = .ok n) :
    ∃ t, LanguageTag.parse? n.fullTag = some t ∧ t.baseName = n.locale := by
  obtain ⟨tags, hTags, rfl⟩ := map_eq_ok_iff.mp h
  rw [resolveTags_eq]
  refine exists_parse?_agreement (isBaseName_agreedLocale hdb tags matcher) ?_
  intro nu hnu
  exact isKeywordValue_of_taggedNumberingSystem? (exists_parse?_of_canonicalize hTags) hnu

/-- A formatter that agrees on locales over one database and prepares for them over another. -/
def formatterOver (negotiation conventions : Database) :
    Formatter Id Conventions UnsupportedLocale where
  engine := conventions.engine
  resolver := negotiation.resolver UnsupportedLocale

variable {negotiation conventions : Database} {requested : Locales} {options : Options}

theorem configure_formatterOver_of_fault {e : FormatError UnsupportedLocale}
    (h : firstFault (Formatter.faults UnsupportedLocale requested options) = some e) :
    Id.run ((formatterOver negotiation conventions).configure requested options).run =
      .error e := by
  rw [Formatter.configure_run, Formatter.prepare_of_not_bound rfl, Formatter.negotiate_eq, h]
  rfl

/-- Without a fault the engine prepares for the tag that is agreed on. -/
theorem configure_formatterOver_of_no_fault (hNegotiation : negotiation.IsCanonical)
    (conventions : Database)
    (h : firstFault (Formatter.faults UnsupportedLocale requested options) = none) :
    ∃ f, Id.run ((formatterOver negotiation conventions).configure requested options).run =
      .ok f := by
  obtain ⟨n, hn⟩ := Formatter.exists_negotiate_eq negotiation h
  have hResolve := mapError_eq_ok_iff.mp (Formatter.of_negotiate hn).2
  obtain ⟨t, ht, -⟩ := exists_parse?_of_resolve hNegotiation hResolve
  have hBuild : Conventions.build conventions n.fullTag options.asked
      ⟨n.fullTag, n.numberingSystem.getD ""⟩ = .ok _ := Conventions.build_of_parse? ht _ _
  have hn : Formatter.negotiate (formatterOver negotiation conventions).resolver requested options =
    .ok (options.asked, n) := hn
  rw [Formatter.configure_run, Formatter.prepare_of_not_bound rfl, hn]
  show ∃ f, Except.map _ (Bound.ofBuild options.asked (Conventions.build conventions n.fullTag
    options.asked ⟨n.fullTag, n.numberingSystem.getD ""⟩)) = .ok f
  rw [hBuild]
  exact ⟨_, rfl⟩

/-- **Locale fallback never fails**: a formatter is configured whenever the requested tags and the
options are as they should be, and nothing else is ever at fault. -/
theorem configured_of_valid (hNegotiation : negotiation.Reachable) (conventions : Database)
    (requested : Locales) (options : Options) :
    ((∃ f, Id.run ((formatterOver negotiation conventions).configure requested options).run =
        .ok f) ↔
      (∀ text ∈ requested, (LanguageTag.parse? text).isSome = true) ∧ options.IsValid) ∧
    (∀ e, Id.run ((formatterOver negotiation conventions).configure requested options).run =
        .error e → e.IsFault) ∧
    ∀ extensions matcher n, negotiation.resolve requested extensions matcher = .ok n →
      ∃ t, LanguageTag.parse? (n.locale ++ n.extension) = some t ∧ t.baseName = n.locale := by
  have hCanonical := isCanonical_of_reachable hNegotiation
  refine ⟨?_, ?_, fun extensions matcher n h => exists_parse?_of_resolve hCanonical h⟩
  · rw [← Formatter.firstFault_faults_eq_none_iff (ε := UnsupportedLocale)]
    constructor
    · rintro ⟨f, hf⟩
      cases h : firstFault (Formatter.faults UnsupportedLocale requested options) with
      | none => rfl
      | some e =>
        rw [configure_formatterOver_of_fault h] at hf
        cases hf
    · exact configure_formatterOver_of_no_fault hCanonical conventions
  · intro e he
    cases h : firstFault (Formatter.faults UnsupportedLocale requested options) with
    | none =>
      obtain ⟨f, hf⟩ := configure_formatterOver_of_no_fault hCanonical conventions h
      rw [hf] at he
      cases he
    | some e' =>
      rw [configure_formatterOver_of_fault h] at he
      obtain rfl := Except.error.inj he
      exact Formatter.isFault_of_mem_faults (mem_of_firstFault h)

/-- A database without locales falls back to its default locale, whatever is requested. -/
theorem configured_of_valid_fallback :
    ∃ negotiation, empty.withDefaultLocale "sr_latn" = .ok negotiation ∧ negotiation.Reachable ∧
      ∃ f, Id.run ((formatterOver negotiation standard).configure
        ["tlh-u-nu-hanidec", "ar-EG"] ∅).run = .ok f := by
  have hOk : (empty.withDefaultLocale "sr_latn").isOk = true := by decide +kernel
  have hTags : ∀ text ∈ ["tlh-u-nu-hanidec", "ar-EG"], (LanguageTag.parse? text).isSome = true := by
    decide +kernel
  have hValid : Options.IsValid ∅ := by
    refine ⟨?_, by decide⟩
    intro n v hv
    cases n <;> cases hv
  cases h : empty.withDefaultLocale "sr_latn" with
  | error e =>
    rw [h] at hOk
    cases hOk
  | ok negotiation =>
    have hReachable : negotiation.Reachable := .withDefaultLocale .empty h
    exact ⟨negotiation, rfl, hReachable,
      (configured_of_valid hReachable standard _ ∅).1.mpr ⟨hTags, hValid⟩⟩

end Database

end Numeral
