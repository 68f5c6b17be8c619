import Numeral.Proofs.Conventions.NativeDigits
import Numeral.Proofs.Formatter.Database

/-!
# The numbering system of a formatter

The database and the engine decide on the numbering system one after the other, and each of them
reads the tag.  Where the numbering systems of all locales are types of locale tags, the two agree:
what a formatter reports is what it writes with (`configured_reports`).
-/

namespace Numeral

/-- The numbering systems that the locales list are types of locale tags, in small letters. -/
def Database.ListsTypes (db : Database) : Prop :=
  ∀ locale s, db.settings? locale = some s →
    ∀ name ∈ s.numberingSystems, isUnicodeType name = true ∧ name.toLower = name

/-- What a formatter is bound to reports the numbering system that it writes with, for a locale, the
numbering system `wanted` that is asked for and the one that the tag of the request names. -/
structure Bound.Reports (b : Bound Conventions) (db : Database) (l : String)
    (wanted tagged : Option String) : Prop where
  /-- The one in effect is reported. -/
  numberingSystem : b.resolved.numberingSystem = ((db.settingsOrDefault l).effective wanted).name
  /-- The locale keeps the keyword that is asked for, if it is honored. -/
  locale : b.resolved.locale =
    if ((db.settingsOrDefault l).honored? wanted).isSome ∧ tagged = wanted then
      l ++ "-u-nu-" ++ wanted.getD ""
    else l
  /-- Every digit of a number is one of the numbering system in effect. -/
  digits : ∀ x negative m, x.isNaN = false → b.handle.scaled x.abs = .finite negative m →
    b.handle.write x =
      (if x.isNegative then b.handle.settings.minus.toList else []) ++ b.handle.affixes.leading ++
        b.handle.nativeText ((db.settingsOrDefault l).effective wanted) m ++
        b.handle.affixes.trailing

theorem Settings.name_of_honored? {s : Settings} {wanted : Option String} {n : NumberingSystem}
    (h : s.honored? wanted = some n) : wanted = some n.name := by
  obtain ⟨name, hw, h⟩ := Option.bind_eq_some_iff.mp h
  by_cases hm : name ∈ s.numberingSystems
  · rw [if_pos hm] at h
    rw [hw, ← (NumberingSystem.ofName?_eq_some_iff).mp h]
  · rw [if_neg hm] at h
    cases h

theorem isType_of_isUnicodeType {name : String} (h : isUnicodeType name = true)
    (hl : name.toLower = name) :
    Subtag.isType name.toList = true ∧ Subtag.lower name.toList = name.toList := by
  refine ⟨h, ?_⟩
  have hl := congrArg String.toList hl
  exact String.toList_map.symm.trans hl

namespace Database

variable {db : Database}

theorem ListsTypes.settingsOrDefault (h : db.ListsTypes) (l : String) :
    ∀ name ∈ (db.settingsOrDefault l).numberingSystems,
      isUnicodeType name = true ∧ name.toLower = name := by
  rw [Database.settingsOrDefault]
  cases hs : db.settings? l with
  | none =>
    intro name hn
    obtain rfl := List.mem_singleton.mp hn
    decide +kernel
  | some s => exact h l s hs

/-- What the engine is bound to reports what it writes with. -/
theorem boundTo_reports {t : LanguageTag} {l : String} {wanted tagged : Option String}
    (ht : t.baseName = l) (config : Config) {suggested : String}
    (hfor : Conventions.numberingSystemFor db t suggested =
      (db.settingsOrDefault l).effective wanted)
    (hnamed : Conventions.named? db t =
      if tagged = wanted then (db.settingsOrDefault l).honored? wanted else none) :
    (db.boundTo t config suggested).Reports db l wanted tagged := by
  refine ⟨congrArg NumberingSystem.name hfor, ?_, ?_⟩
  · have hlocale : (db.boundTo t config suggested).resolved.locale =
        (Conventions.report db t suggested).locale := rfl
    rw [hlocale, Conventions.report, hnamed, ht]
    by_cases hk : tagged = wanted
    · rw [if_pos hk]
      cases hh : (db.settingsOrDefault l).honored? wanted with
      | none => rw [if_neg (by simp)]
      | some n => rw [if_pos ⟨rfl, hk⟩, Settings.name_of_honored? hh, Option.getD_some]
    · rw [if_neg hk, if_neg fun h => hk h.2]
  · intro x negative m hx hm
    have hn : (db.boundTo t config suggested).handle.numberingSystem =
        (db.settingsOrDefault l).effective wanted := hfor
    rw [Conventions.write, hx, if_neg Bool.false_ne_true, hm, ← hn,
      ← Conventions.magnitudeText_eq_nativeText]
    rfl

/-- **Every formatter reports the numbering system that it writes with.**  It is the one that the
options or else the tag ask for, where the locale lists it and its digits are known, else the first
one of the locale if its digits are known, and else the one with ASCII digits. -/
theorem configured_reports (hdb : db.Reachable) (hlists : db.ListsTypes) {requested : Locales}
    {options : Options} {f : Formatter Id Conventions UnsupportedLocale}
    (hf : Id.run ((db.formatter.configure requested options).run) = .ok f) :
    ∃ tags config b, canonicalize requested = .ok tags ∧ options.validate = .ok config ∧
      f.bound = some b ∧
      b.Reports db (db.agreedLocale tags config.localeMatcher)
        (config.numberingSystem.or (db.taggedNumberingSystem? tags config.localeMatcher))
        (db.taggedNumberingSystem? tags config.localeMatcher) ∧
      f.resolvedOptions = .ok b.resolved ∧
      ∀ x, Id.run ((f.formatNumber x).run) =
        .ok (String.ofList (b.handle.write x.unsignedZero)) := by
  obtain ⟨tags, config, t, htags, hc, ht, rfl⟩ := configure_eq_ok_iff.mp hf
  refine ⟨tags, config, _, htags, hc, rfl, ?_, rfl, fun x => rfl⟩
  obtain ⟨base, hbase, hl⟩ :=
    isBaseName_agreedLocale (isCanonical_of_reachable hdb) tags config.localeMatcher
  have hwanted : ∀ name ∈ db.wanted? tags config,
      name ∈ (db.settingsOrDefault base.baseName).numberingSystems →
        Subtag.isType name.toList = true ∧ Subtag.lower name.toList = name.toList := by
    intro name _ hm
    obtain ⟨htype, hlower⟩ := hlists.settingsOrDefault _ name hm
    exact isType_of_isUnicodeType htype hlower
  obtain ⟨u, hu, hname, hfor, hnamed⟩ :=
    Conventions.agreement_report (db.taggedNumberingSystem? tags config.localeMatcher) hbase rfl
      hwanted
  rw [hl] at hu hname hfor hnamed
  obtain rfl : t = u := Option.some.inj (ht.symm.trans hu)
  exact boundTo_reports hname config hfor hnamed

theorem listsTypes_standard : standard.ListsTypes := by
  have hAll : ∀ s ∈ standardSettings, ∀ name ∈ s.numberingSystems,
      isUnicodeType name = true ∧ name.toLower = name := by decide +kernel
  intro l s hs
  have hm := settingsOrDefault_standard_mem l
  rw [Database.settingsOrDefault, hs] at hm
  exact hAll s hm

/-- Arabic numbers are written with ASCII digits where the tag asks for them. -/
theorem configured_reports_arabic :
    standard.Reachable ∧ standard.ListsTypes ∧
      ∃ f, Id.run ((standard.formatter.configure ["ar-EG-u-nu-latn"] ∅).run) = .ok f ∧
        ∃ b, f.bound = some b ∧ b.Reports standard "ar-EG" (some "latn") (some "latn") := by
  have hOk : (Id.run ((standard.formatter.configure ["ar-EG-u-nu-latn"] ∅).run)).isOk = true := by
    decide +kernel
  have hValidate : Options.validate ∅ = .ok {} := rfl
  have hTags : ∀ tags, canonicalize ["ar-EG-u-nu-latn"] = .ok tags →
      standard.agreedLocale tags .bestFit = "ar-EG" ∧
        standard.taggedNumberingSystem? tags .bestFit = some "latn" := by
    have hMap : (canonicalize ["ar-EG-u-nu-latn"]).toOption.map (fun tags =>
        (standard.agreedLocale tags .bestFit, standard.taggedNumberingSystem? tags .bestFit)) =
          some ("ar-EG", some "latn") := by decide +kernel
    intro tags htags
    rw [htags] at hMap
    exact Prod.mk.inj (Option.some.inj hMap)
  cases hf : Id.run ((standard.formatter.configure ["ar-EG-u-nu-latn"] ∅).run) with
  | error e =>
    rw [hf] at hOk
    cases hOk
  | ok f =>
    obtain ⟨tags, config, b, htags, hc, hb, hreports, -, -⟩ :=
      configured_reports .standard listsTypes_standard hf
    obtain rfl : {} = config := Except.ok.inj (hValidate.symm.trans hc)
    obtain ⟨hl, hk⟩ := hTags tags htags
    refine ⟨.standard, listsTypes_standard, f, rfl, b, hb, ?_⟩
    have hreports : b.Reports standard (standard.agreedLocale tags .bestFit)
        (Option.none.or (standard.taggedNumberingSystem? tags .bestFit))
        (standard.taggedNumberingSystem? tags .bestFit) := hreports
    rwa [hl, hk] at hreports

end Database

end Numeral
