import Numeral.Proofs.Locale.Negotiation
import Numeral.Proofs.Text.ByteOrder

/-!
# Editing a database

The tags of a database stand in order and each is its own canonical form.  When the settings of one
locale are added or replaced, every spelling of its tag is matched with it, and nothing else of the
database changes (`withLocale_replaces`).
-/

namespace Numeral.Database

variable {db : Database}

/-! ### The tags of a database -/

/-- A base name is the canonical form of itself. -/
theorem baseName_of_isBaseName {l : String} (h : IsBaseName l) :
    (LanguageTag.parse? l).map (·.baseName) = some l := by
  obtain ⟨t, ht, rfl⟩ := h
  rw [LanguageTag.parse?_baseName ht]
  rfl

theorem mem_availableLocales_iff {l : String} :
    l ∈ db.availableLocales ↔ db.contains l = true := by
  rw [availableLocales, Std.TreeMap.mem_keys]
  exact Std.TreeMap.mem_iff_contains

/-- The available locales stand in the order of their bytes, each of them once. -/
theorem pairwise_availableLocales (db : Database) :
    db.availableLocales.Pairwise fun k l => bytes k < bytes l := by
  simp only [← compare_eq_lt_iff]
  exact Std.TreeMap.ordered_keys

/-! ### Adding and replacing -/

/-- The second database has the given settings under one tag and is as the first one else. -/
structure Replaces (db : Database) (l : String) (s : Settings) (db' : Database) : Prop where
  own : db'.settings? l = some s
  others : ∀ k, k ≠ l → db'.settings? k = db.settings? k
  defaultLocale : db'.defaultLocale = db.defaultLocale
  currencies : db'.currencies = db.currencies

theorem replaces_insert (db : Database) (l : String) (s : Settings) :
    db.Replaces l s { db with locales := db.locales.insert l s } where
  own := Std.TreeMap.getElem?_insert_self
  others := by
    intro k hk
    rw [settings?, Std.TreeMap.getElem?_insert, if_neg]
    · rfl
    · intro h
      exact hk (Std.LawfulEqCmp.eq_of_compare h).symm
  defaultLocale := rfl
  currencies := rfl

theorem Replaces.contains {db' : Database} {l : String} {s : Settings}
    (h : db.Replaces l s db') : db'.contains l = true := by
  have hSome : (db'.settings? l).isSome = true := by rw [h.own, Option.isSome_some]
  rwa [settings?, Std.TreeMap.isSome_getElem?_eq_contains] at hSome

theorem withLocale_eq_ok_iff {db' : Database} {tag : String} {s : Settings} :
    db.withLocale tag s = .ok db' ↔
      ∃ t, LanguageTag.parse? tag = some t ∧
        { db with locales := db.locales.insert t.baseName s } = db' := by
  rw [withLocale, map_eq_ok_iff, canonicalTag]
  cases LanguageTag.parse? tag with
  | none => simp
  | some t => simp

/-- An available locale is what is agreed on for a tag that spells it. -/
theorem locale_resolve_of_contains {text : String} {t : LanguageTag}
    (ht : LanguageTag.parse? text = some t) (h : db.contains t.baseName = true)
    (extensions : Std.TreeMap String String) (matcher : LocaleMatcher) :
    ∃ n, db.resolve [text] extensions matcher = .ok n ∧ n.locale = t.baseName := by
  have hAgreed : db.agreedLocale [t] matcher = t.baseName := by
    rw [agreedLocale, matched?, List.findSome?_cons, bestAvailable?_of_contains h]
    rfl
  refine ⟨db.resolveTags [t] extensions matcher, ?_, ?_⟩
  · rw [resolve, canonicalize_singleton ht]
    rfl
  · rw [resolveTags_eq, hAgreed, locale_agreement]

/-- **The tags of a database are canonical, and its settings are found under them.**  Each available
tag and the default one are their own canonical forms, and the available ones stand in order.  When
the settings of a locale are added or replaced, every tag with the same base name is matched with
that locale, and the rest of the database stays as it is. -/
theorem withLocale_replaces (hdb : db.Reachable) :
    (∀ l, l ∈ db.availableLocales ∨ l = db.defaultLocale →
      (LanguageTag.parse? l).map (·.baseName) = some l) ∧
    (∀ l, l ∈ db.availableLocales ↔ (db.settings? l).isSome = true) ∧
    db.availableLocales.Pairwise (fun k l => bytes k < bytes l) ∧
    ∀ tag s db', db.withLocale tag s = .ok db' →
      ∃ t, LanguageTag.parse? tag = some t ∧ db.Replaces t.baseName s db' ∧
        ∀ text r, LanguageTag.parse? text = some r → r.baseName = t.baseName → ∀ matcher,
          db'.bestAvailable? r.baseName matcher = some t.baseName ∧
          ∀ extensions, ∃ n, db'.resolve [text] extensions matcher = .ok n ∧
            n.locale = t.baseName := by
  have hCanonical := isCanonical_of_reachable hdb
  refine ⟨?_, ?_, db.pairwise_availableLocales, ?_⟩
  · rintro l (hl | rfl)
    · exact baseName_of_isBaseName (hCanonical.locales l (mem_availableLocales_iff.mp hl))
    · exact baseName_of_isBaseName hCanonical.defaultLocale
  · intro l
    rw [mem_availableLocales_iff, settings?, Std.TreeMap.isSome_getElem?_eq_contains]
    rfl
  · intro tag s db' h
    obtain ⟨t, ht, rfl⟩ := withLocale_eq_ok_iff.mp h
    have hReplaces := db.replaces_insert t.baseName s
    refine ⟨t, ht, hReplaces, ?_⟩
    intro text r hr hName matcher
    have hContains := hReplaces.contains
    rw [← hName] at hContains ⊢
    exact ⟨bestAvailable?_of_contains hContains matcher, fun extensions =>
      locale_resolve_of_contains hr hContains extensions matcher⟩

/-- A locale that is added in one spelling is found in another one, with a private part behind. -/
theorem withLocale_replaces_taiwan :
    ∃ db db', empty.withDefaultLocale "sr_latn" = .ok db ∧ db.Reachable ∧
      db.withLocale "zh_hant_TW-u-nu-hanidec" commaAndSpace = .ok db' ∧
      db'.settings? "zh-Hant-TW" = some commaAndSpace ∧ db'.defaultLocale = db.defaultLocale ∧
      ∃ r, LanguageTag.parse? "ZH-hant_tw-x-private" = some r ∧
        db'.bestAvailable? r.baseName .lookup = some "zh-Hant-TW" := by
  have hDefault : (empty.withDefaultLocale "sr_latn").isOk = true := by decide +kernel
  have hAdded : (LanguageTag.parse? "zh_hant_TW-u-nu-hanidec").map (·.baseName) =
      some "zh-Hant-TW" := by decide +kernel
  have hRequested : (LanguageTag.parse? "ZH-hant_tw-x-private").map (·.baseName) =
      some "zh-Hant-TW" := by decide +kernel
  obtain ⟨t, ht, hName⟩ := Option.map_eq_some_iff.mp hAdded
  obtain ⟨r, hr, hName'⟩ := Option.map_eq_some_iff.mp hRequested
  cases h : empty.withDefaultLocale "sr_latn" with
  | error e =>
    rw [h] at hDefault
    cases hDefault
  | ok db =>
    have hdb : db.Reachable := .withDefaultLocale .empty h
    obtain ⟨db', hdb'⟩ :
        ∃ db', db.withLocale "zh_hant_TW-u-nu-hanidec" commaAndSpace = .ok db' :=
      ⟨_, withLocale_eq_ok_iff.mpr ⟨t, ht, rfl⟩⟩
    obtain ⟨-, -, -, hEdit⟩ := withLocale_replaces hdb
    obtain ⟨u, hu, hReplaces, hFound⟩ := hEdit _ _ _ hdb'
    obtain rfl := Option.some.inj (ht.symm.trans hu)
    obtain ⟨hMatch, -⟩ := hFound _ r hr (hName'.trans hName.symm) .lookup
    rw [hName] at hReplaces hMatch
    exact ⟨db, db', rfl, hdb, hdb', hReplaces.own, hReplaces.defaultLocale, r, hr, hMatch⟩

end Numeral.Database
