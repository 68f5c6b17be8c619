import Numeral.Locale.Load
import Numeral.Locale.Standard
import Numeral.Proofs.Locale.Tag
import Numeral.Proofs.Outcome

/-!
# Databases under canonical tags

However a database has been made, its locales and its default locale are base names of canonical
tags (`isCanonical_of_reachable`).
-/

namespace Numeral

/-- The text is the base name of a tag in canonical form. -/
def IsBaseName (s : String) : Prop := ∃ t : LanguageTag, t.id.IsCanonical ∧ t.baseName = s

theorem isBaseName_of_parse? {s : String} {t : LanguageTag} (h : LanguageTag.parse? s = some t) :
    IsBaseName t.baseName := ⟨t, LanguageTag.isCanonical_of_parse? h, rfl⟩

/-- Reading a row of entries keeps what reading each of them keeps. -/
theorem foldlM_invariant {α β ε : Type} {f : β → α → Except ε β} {P : β → Prop}
    (hf : ∀ b a b', P b → f b a = .ok b' → P b') {as : List α} {b b' : β} (hb : P b)
    (h : as.foldlM f b = .ok b') : P b' := by
  induction as generalizing b with
  | nil =>
    rw [List.foldlM_nil] at h
    rwa [← pure_eq_ok_iff.mp h]
  | cons a as ih =>
    rw [List.foldlM_cons] at h
    obtain ⟨c, hc, h⟩ := bind_eq_ok_iff.mp h
    exact ih (hf b a c hb hc) h

namespace Database

/-- A database that the program can have made. -/
inductive Reachable : Database → Prop
  | empty : Reachable empty
  | standard : Reachable standard
  | document {doc : Toml.Value} {db : Database} (h : ofDocument doc = .ok db) : Reachable db
  | withDefaultLocale {db db' : Database} {tag : String} (hdb : Reachable db)
      (h : db.withDefaultLocale tag = .ok db') : Reachable db'
  | withLocale {db db' : Database} {tag : String} {s : Settings} (hdb : Reachable db)
      (h : db.withLocale tag s = .ok db') : Reachable db'

/-- The default locale and all locales are base names. -/
structure IsCanonical (db : Database) : Prop where
  defaultLocale : IsBaseName db.defaultLocale
  locales : ∀ l, db.contains l = true → IsBaseName l

theorem isBaseName_of_canonicalTag {tag l : String} (h : canonicalTag tag = .ok l) :
    IsBaseName l := by
  rw [canonicalTag] at h
  cases ht : LanguageTag.parse? tag with
  | none =>
    rw [ht] at h
    cases h
  | some t =>
    rw [ht] at h
    cases h
    exact isBaseName_of_parse? ht

theorem isBaseName_of_contains_insert {locales : Std.TreeMap String Settings} {k l : String}
    {s : Settings} (hlocales : ∀ l, locales.contains l = true → IsBaseName l) (hk : IsBaseName k)
    (h : (locales.insert k s).contains l = true) : IsBaseName l := by
  rw [Std.TreeMap.contains_insert, Bool.or_eq_true, beq_iff_eq] at h
  rcases h with h | h
  · rwa [← Std.LawfulEqCmp.eq_of_compare h]
  · exact hlocales l h

theorem isBaseName_en_US : IsBaseName empty.defaultLocale := by
  have ht : (LanguageTag.parse? "en-US").map (·.baseName) = some "en-US" := by decide +kernel
  obtain ⟨t, ht, hname⟩ := Option.map_eq_some_iff.mp ht
  show IsBaseName "en-US"
  rw [← hname]
  exact isBaseName_of_parse? ht

/-! ### The standard database -/

/-- The settings that a locale has in the standard database, those of an unknown one first. -/
def standardSettings : List Settings := Settings.plain :: standardLocales.map Prod.snd

theorem settingsOrDefault_standard_mem (locale : String) :
    standard.settingsOrDefault locale ∈ standardSettings := by
  have hDistinct : standardLocales.Pairwise fun a b => ¬ compare a.1 b.1 = .eq := by decide
  by_cases hc : (standardLocales.map Prod.fst).contains locale
  · obtain ⟨⟨k, s⟩, hs, rfl⟩ := List.mem_map.mp (List.contains_iff_mem.mp hc)
    have hFound : standard.settings? k = some s :=
      Std.TreeMap.getElem?_ofList_of_mem Std.ReflCmp.compare_self hDistinct hs
    rw [settingsOrDefault, hFound, Option.getD_some]
    exact List.mem_cons_of_mem _ (List.mem_map_of_mem (f := Prod.snd) hs)
  · have hNone : standard.settings? locale = none :=
      Std.TreeMap.getElem?_ofList_of_contains_eq_false (Bool.eq_false_iff.mpr hc)
    rw [settingsOrDefault, hNone, Option.getD_none]
    exact List.mem_cons_self

theorem isCanonical_standard : standard.IsCanonical := by
  have hAll : ∀ p ∈ standardLocales,
      (LanguageTag.parse? p.1).map (·.baseName) = some p.1 := by decide +kernel
  refine ⟨isBaseName_en_US, ?_⟩
  intro l hl
  have hl : (standardLocales.map Prod.fst).contains l = true := by
    rwa [contains, standard, Std.TreeMap.contains_ofList] at hl
  obtain ⟨p, hp, rfl⟩ := List.mem_map.mp (List.contains_iff_mem.mp hl)
  obtain ⟨t, ht, hname⟩ := Option.map_eq_some_iff.mp (hAll p hp)
  rw [← hname]
  exact isBaseName_of_parse? ht

/-! ### Documents -/

theorem isBaseName_of_defaultLocaleOf {doc : Toml.Table} {l : String}
    (h : defaultLocaleOf doc = .ok l) : IsBaseName l := by
  rw [defaultLocaleOf] at h
  split at h
  · cases h
    exact isBaseName_en_US
  · split at h
    · exact isBaseName_of_canonicalTag h
    · cases h

theorem isBaseName_of_localesOf {doc : Toml.Table} {base : Settings}
    {locales : Std.TreeMap String Settings} (h : localesOf doc base = .ok locales) :
    ∀ l, locales.contains l = true → IsBaseName l := by
  have hempty : ∀ l, (∅ : Std.TreeMap String Settings).contains l = true → IsBaseName l := by
    intro l hl
    simp at hl
  rw [localesOf] at h
  split at h
  · cases h
    exact hempty
  · split at h
    · cases h
    · refine foldlM_invariant (P := fun m => ∀ l, m.contains l = true → IsBaseName l) ?_ hempty h
      intro known p locales hknown hp
      obtain ⟨s, -, hp⟩ := bind_eq_ok_iff.mp hp
      obtain ⟨k, hk, hp⟩ := bind_eq_ok_iff.mp hp
      rw [← pure_eq_ok_iff.mp hp]
      intro l hl
      exact isBaseName_of_contains_insert hknown (isBaseName_of_canonicalTag hk) hl

theorem isCanonical_of_ofDocument {doc : Toml.Value} {db : Database}
    (h : ofDocument doc = .ok db) : db.IsCanonical := by
  rw [ofDocument] at h
  split at h
  · obtain ⟨l, hl, h⟩ := bind_eq_ok_iff.mp h
    obtain ⟨base, -, h⟩ := bind_eq_ok_iff.mp h
    obtain ⟨currencies, -, h⟩ := bind_eq_ok_iff.mp h
    obtain ⟨locales, hlocales, h⟩ := bind_eq_ok_iff.mp h
    rw [← pure_eq_ok_iff.mp h]
    exact ⟨isBaseName_of_defaultLocaleOf hl, isBaseName_of_localesOf hlocales⟩
  · cases h

/-- **Every database that can be made is canonical.** -/
theorem isCanonical_of_reachable {db : Database} (h : Reachable db) : db.IsCanonical := by
  induction h with
  | empty =>
    refine ⟨isBaseName_en_US, ?_⟩
    intro l hl
    simp [contains, empty] at hl
  | standard => exact isCanonical_standard
  | document h => exact isCanonical_of_ofDocument h
  | withDefaultLocale hdb h ih =>
    obtain ⟨l, hl, rfl⟩ := map_eq_ok_iff.mp h
    exact ⟨isBaseName_of_canonicalTag hl, ih.locales⟩
  | withLocale hdb h ih =>
    obtain ⟨l, hl, rfl⟩ := map_eq_ok_iff.mp h
    exact ⟨ih.defaultLocale, fun k hk =>
      isBaseName_of_contains_insert ih.locales (isBaseName_of_canonicalTag hl) hk⟩

end Database

end Numeral
