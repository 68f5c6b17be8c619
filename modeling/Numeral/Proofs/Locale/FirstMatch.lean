import Numeral.Formatter.Basic
import Numeral.Proofs.Locale.Canonicalization
import Numeral.Proofs.Locale.Negotiation

/-!
# The first tag that is matched decides

A request is brought into canonical form before its tags are matched, and of tags with the same text
only the first one is left.  Such tags have the same base name (`baseName_eq_of_toText_eq`), so what
is left out would not have been the first one that is matched (`matched?_distinct`), and it is that
tag, as it stands in the request, which decides on the locale and whose keyword is read
(`resolver_firstMatch`).
-/

namespace Numeral

/-- The tags that are read from a request. -/
def readTags (requested : Locales) : List LanguageTag := requested.filterMap LanguageTag.parse?

/-- Tags that are read and have the same text have the same base name. -/
theorem LanguageTag.baseName_eq_of_toText_eq {s s' : String} {t t' : LanguageTag}
    (h : parse? s = some t) (h' : parse? s' = some t') (hText : t'.toText = t.toText) :
    t'.baseName = t.baseName := by
  apply baseName_eq_of_withoutTrue_eq
  have hRead := parse?_toText_of_parse? h
  have hRead' := parse?_toText_of_parse? h'
  rw [hText] at hRead'
  exact Option.some.inj (hRead'.symm.trans hRead)

theorem baseName_eq_of_mem_readTags {requested : Locales} {t u : LanguageTag}
    (ht : t ∈ readTags requested) (hu : u ∈ readTags requested) (hText : u.toText = t.toText) :
    u.baseName = t.baseName := by
  obtain ⟨s, -, hs⟩ := List.mem_filterMap.mp ht
  obtain ⟨s', -, hs'⟩ := List.mem_filterMap.mp hu
  exact LanguageTag.baseName_eq_of_toText_eq hs hs' hText

/-- A search that skips all tags with the same text, or none of them, is not changed when only the
first one of them is left. -/
theorem findSome?_distinct {β : Type} {f : LanguageTag → Option β} {tags : List LanguageTag}
    (hSkip : ∀ t ∈ tags, ∀ u ∈ tags, u.toText = t.toText → f u = none → f t = none) :
    (distinct tags).findSome? f = tags.findSome? f := by
  induction tags using List.reverseRecOn with
  | nil => rfl
  | append_singleton tags t ih =>
    have ih := ih fun u hu v hv =>
      hSkip u (List.mem_append_left _ hu) v (List.mem_append_left _ hv)
    rw [distinct_concat]
    by_cases h : t.toText ∈ (distinct tags).map (·.toText)
    · rw [addTag_of_mem h, ih, List.findSome?_append]
      cases hFound : tags.findSome? f with
      | some b => rfl
      | none =>
        -- a tag with this text stands before and has been skipped
        obtain ⟨u, hu, hText⟩ := List.mem_map.mp h
        have hu := mem_of_mem_distinct hu
        have hSkipped := List.findSome?_eq_none_iff.mp hFound u hu
        have hLast := hSkip t (List.mem_append_right _ List.mem_cons_self) u
          (List.mem_append_left _ hu) hText hSkipped
        rw [List.findSome?_singleton, hLast]
        rfl
    · rw [addTag_of_not_mem h, List.findSome?_append, ih, List.findSome?_append]

namespace Database

variable {db : Database} {requested : Locales} {matcher : LocaleMatcher}

/-- Dropping tags with the same text changes neither the tag that decides nor its locale. -/
theorem matched?_distinct (db : Database) (requested : Locales) (matcher : LocaleMatcher) :
    db.matched? (distinct (readTags requested)) matcher =
      db.matched? (readTags requested) matcher := by
  apply findSome?_distinct
  intro t ht u hu hText hNone
  rw [Option.map_eq_none_iff] at hNone ⊢
  rwa [← baseName_eq_of_mem_readTags ht hu hText]

/-- What is agreed on for the tag that decides and its locale. -/
def decision (db : Database) (extensions : Std.TreeMap String String)
    (found : Option (String × LanguageTag)) : Negotiated :=
  let tagged := (found.map Prod.snd).bind (·.keyword? "nu")
  db.agreement ((found.map Prod.fst).getD db.defaultLocale) (extensions["nu"]?.or tagged) tagged

theorem locale_decision (db : Database) (extensions : Std.TreeMap String String)
    (found : Option (String × LanguageTag)) :
    (db.decision extensions found).locale = (found.map Prod.fst).getD db.defaultLocale := by
  rw [decision, locale_agreement]

theorem resolve_eq (db : Database) (requested : Locales) (extensions : Std.TreeMap String String)
    (matcher : LocaleMatcher) :
    db.resolve requested extensions matcher = outcome (requested.findSome? malformed?)
      (db.decision extensions (db.matched? (readTags requested) matcher)) := by
  rw [resolve, canonicalize_eq]
  cases requested.findSome? malformed? with
  | some text => rfl
  | none =>
    show Except.ok (db.resolveTags (distinct (readTags requested)) extensions matcher) = _
    rw [resolveTags_eq, agreedLocale, taggedNumberingSystem?, matched?_distinct]
    rfl

/-- The text is malformed as a tag. -/
def IsMalformed (text : String) : Prop := LanguageTag.parse? text = none

instance (text : String) : Decidable (IsMalformed text) :=
  inferInstanceAs (Decidable (LanguageTag.parse? text = none))

theorem findSome?_malformed?_eq_none (h : ∀ s ∈ requested, ¬ IsMalformed s) :
    requested.findSome? malformed? = none := by
  rw [List.findSome?_eq_none_iff]
  intro s hs
  exact malformed?_eq_none_iff.mpr (Option.isSome_iff_ne_none.mpr (h s hs))

/-- A request of well-formed tags is answered by what its tags are matched with. -/
theorem resolve_eq_ok (h : ∀ s ∈ requested, ¬ IsMalformed s)
    (extensions : Std.TreeMap String String) :
    db.resolve requested extensions matcher =
      .ok (db.decision extensions (db.matched? (readTags requested) matcher)) := by
  rw [resolve_eq, findSome?_malformed?_eq_none h]
  rfl

theorem resolver_eq_ok (ε : Type) (h : ∀ s ∈ requested, ¬ IsMalformed s)
    (extensions : Std.TreeMap String String) :
    db.resolver ε requested extensions matcher =
      .ok (db.decision extensions (db.matched? (readTags requested) matcher)) := by
  rw [resolver, resolve_eq_ok h]
  rfl

theorem extension_agreement_none (db : Database) (locale : String) (wanted : Option String) :
    (db.agreement locale wanted none).extension = "" := by
  rw [agreement]
  split
  · rfl
  · rfl

/-! ### Where a tag stands in a request -/

/-- The text is the first one of a request that has the property. -/
def IsFirst (p : String → Prop) (requested : Locales) (text : String) : Prop :=
  ∃ before behind, requested = before ++ text :: behind ∧ (∀ s ∈ before, ¬ p s) ∧ p text

/-- The text is a tag whose base name is matched with an available locale. -/
def IsMatched (db : Database) (matcher : LocaleMatcher) (text : String) : Prop :=
  ∃ t l, LanguageTag.parse? text = some t ∧ db.bestAvailable? t.baseName matcher = some l

theorem isMatched_iff {text : String} :
    db.IsMatched matcher text ↔ ((LanguageTag.parse? text).bind fun t =>
      db.bestAvailable? t.baseName matcher).isSome = true := by
  rw [Option.isSome_iff_exists]
  simp only [Option.bind_eq_some_iff]
  constructor
  · rintro ⟨t, l, ht, hl⟩
    exact ⟨l, t, ht, hl⟩
  · rintro ⟨l, t, ht, hl⟩
    exact ⟨t, l, ht, hl⟩

instance (db : Database) (matcher : LocaleMatcher) (text : String) :
    Decidable (db.IsMatched matcher text) := decidable_of_iff _ isMatched_iff.symm

theorem findSome?_malformed?_of_isFirst {text : String} (h : IsFirst IsMalformed requested text) :
    requested.findSome? malformed? = some text := by
  obtain ⟨before, behind, rfl, hBefore, hText⟩ := h
  have hNone := findSome?_malformed?_eq_none hBefore
  have hSome : malformed? text = some text := by
    rw [malformed?, hText]
    rfl
  rw [List.findSome?_append, hNone, Option.none_or, List.findSome?_cons, hSome]

theorem matched?_readTags_eq_none (h : ∀ s ∈ requested, ¬ db.IsMatched matcher s) :
    db.matched? (readTags requested) matcher = none := by
  rw [matched?, List.findSome?_eq_none_iff]
  intro t ht
  obtain ⟨s, hs, ht⟩ := List.mem_filterMap.mp ht
  rw [Option.map_eq_none_iff, Option.eq_none_iff_forall_ne_some]
  intro l hl
  exact h s hs ⟨t, l, ht, hl⟩

theorem matched?_readTags_append {before : Locales} {text l : String} {t : LanguageTag}
    (hBefore : ∀ s ∈ before, ¬ db.IsMatched matcher s) (behind : Locales)
    (ht : LanguageTag.parse? text = some t) (hl : db.bestAvailable? t.baseName matcher = some l) :
    db.matched? (readTags (before ++ text :: behind)) matcher = some (l, t) := by
  have hTags : readTags (before ++ text :: behind) =
      readTags before ++ t :: readTags behind := by
    rw [readTags, List.filterMap_append, List.filterMap_cons, ht]
    rfl
  have hNone := matched?_readTags_eq_none hBefore
  rw [matched?] at hNone
  rw [hTags, matched?, List.findSome?_append, hNone, Option.none_or, List.findSome?_cons, hl]
  rfl

/-- **The first tag that is matched decides.**  A request is answered as this tag alone would be,
with the locale that it is matched with and no keyword but its own.  A request in which no tag is
matched is answered as the empty one, with the default locale and no keyword of a tag.  Of malformed
tags the first one is the error, as it is given. -/
theorem resolver_firstMatch (db : Database) (ε : Type) (requested : Locales)
    (extensions : Std.TreeMap String String) (matcher : LocaleMatcher) :
    (∀ text, IsFirst IsMalformed requested text →
      db.resolver ε requested extensions matcher = .error (.tag text)) ∧
    ((∀ s ∈ requested, ¬ IsMalformed s) →
      (∀ text, IsFirst (db.IsMatched matcher) requested text →
        db.resolver ε requested extensions matcher = db.resolver ε [text] extensions matcher ∧
        ∃ t l, LanguageTag.parse? text = some t ∧ db.bestAvailable? t.baseName matcher = some l ∧
          db.resolver ε [text] extensions matcher =
            .ok (db.agreement l (extensions["nu"]?.or (t.keyword? "nu")) (t.keyword? "nu"))) ∧
      ((∀ s ∈ requested, ¬ db.IsMatched matcher s) →
        db.resolver ε requested extensions matcher = db.resolver ε [] extensions matcher)) ∧
    ∃ n, db.resolver ε [] extensions matcher = .ok n ∧
      n = db.agreement db.defaultLocale extensions["nu"]? none ∧
      n.locale = db.defaultLocale ∧ n.extension = "" := by
  have hEmpty : db.resolver ε [] extensions matcher = .ok (db.decision extensions none) :=
    resolver_eq_ok ε (List.forall_mem_nil _) extensions
  refine ⟨?_, ?_, ?_⟩
  · intro text h
    rw [resolver, resolve_eq, findSome?_malformed?_of_isFirst h]
    rfl
  · intro hWellFormed
    refine ⟨?_, ?_⟩
    · rintro text ⟨before, behind, rfl, hBefore, t, l, ht, hl⟩
      have hAll := matched?_readTags_append hBefore behind ht hl
      have hAlone : db.matched? (readTags [text]) matcher = some (l, t) :=
        matched?_readTags_append (List.forall_mem_nil _) [] ht hl
      have hText : ∀ s ∈ [text], ¬ IsMalformed s := by
        intro s hs
        rw [List.mem_singleton] at hs
        exact hWellFormed s (hs ▸ List.mem_append_right _ List.mem_cons_self)
      rw [resolver_eq_ok ε hWellFormed, hAll, resolver_eq_ok ε hText, hAlone]
      exact ⟨rfl, t, l, ht, hl, rfl⟩
    · intro hNone
      rw [resolver_eq_ok ε hWellFormed, matched?_readTags_eq_none hNone, hEmpty]
  · have hDecision : db.decision extensions none =
        db.agreement db.defaultLocale extensions["nu"]? none := by
      rw [decision, Option.map_none, Option.map_none, Option.bind_none, Option.or_none,
        Option.getD_none]
    refine ⟨_, hEmpty, hDecision, ?_, ?_⟩
    · rw [hDecision, locale_agreement]
    · rw [hDecision, extension_agreement_none]

/-- A tag that is not matched leaves its keyword behind, and another spelling of the tag that
decides has no influence. -/
theorem resolver_firstMatch_egypt :
    ∃ requested, requested = ["tlh-u-nu-latn", "ar_EG", "de-u-nu-arab", "AR-eg-u-nu-latn"] ∧
      IsFirst (standard.IsMatched .lookup) requested "ar_EG" ∧
      standard.resolver UnsupportedLocale requested ∅ .lookup =
        standard.resolver UnsupportedLocale ["ar_EG"] ∅ .lookup ∧
      standard.resolver UnsupportedLocale requested ∅ .lookup = .ok ⟨"ar-EG", "", some "arab"⟩ := by
  generalize hRequested : ["tlh-u-nu-latn", "ar_EG", "de-u-nu-arab", "AR-eg-u-nu-latn"] = requested
  have hWellFormed : ∀ s ∈ requested, ¬ IsMalformed s := by
    rw [← hRequested]
    decide +kernel
  have hBefore : ∀ s ∈ ["tlh-u-nu-latn"], ¬ standard.IsMatched .lookup s := by decide +kernel
  have hMatched : standard.IsMatched .lookup "ar_EG" := by decide +kernel
  have hFirst : IsFirst (standard.IsMatched .lookup) requested "ar_EG" :=
    ⟨["tlh-u-nu-latn"], _, hRequested.symm, hBefore, hMatched⟩
  have hKnown : ((LanguageTag.parse? "ar_EG").bind fun t =>
      (standard.bestAvailable? t.baseName .lookup).map fun l =>
        standard.agreement l (t.keyword? "nu") (t.keyword? "nu")) =
      some ⟨"ar-EG", "", some "arab"⟩ := by decide +kernel
  obtain ⟨-, hDecides, -⟩ := resolver_firstMatch standard UnsupportedLocale requested ∅ .lookup
  obtain ⟨hSame, t, l, ht, hl, hAnswer⟩ := (hDecides hWellFormed).1 "ar_EG" hFirst
  rw [ht, Option.bind_some, hl, Option.map_some] at hKnown
  refine ⟨requested, rfl, hFirst, hSame, ?_⟩
  rw [hSame, hAnswer, Std.TreeMap.getElem?_emptyc, Option.none_or, Option.some.inj hKnown]

end Database

end Numeral
