import Numeral.Proofs.Formatter.NumberingSystem
import Numeral.Proofs.Options.Record

/-!
# What a formatter reports configures it again

The effective configuration of a formatter is a request of its own: the locale that it tells and
the record of its options.  A new formatter that is configured by that request tells the same again,
and writes and reads every number alike (`configured_again`).

The locale is matched with itself, since it is available.  The numbering system is stable, because
the one in effect is either listed by the locale or what is left where none is honored
(`effective_name`).
-/

namespace Numeral

/-! ### The numbering system in effect stays in effect -/

theorem isType_name (n : NumberingSystem) :
    isUnicodeType n.name = true ∧ n.name.toLower = n.name := by
  have hAll : ∀ n ∈ NumberingSystem.all, isUnicodeType n.name = true ∧ n.name.toLower = n.name := by
    decide +kernel
  exact hAll n n.mem_all

namespace Settings

variable {s : Settings} {n : NumberingSystem}

theorem honored?_name (h : n.name ∈ s.numberingSystems) : s.honored? (some n.name) = some n := by
  show (if n.name ∈ s.numberingSystems then NumberingSystem.ofName? n.name else none) = some n
  rw [if_pos h, NumberingSystem.ofName?_name]

theorem mem_of_honored? {wanted : Option String} (h : s.honored? wanted = some n) :
    n.name ∈ s.numberingSystems := by
  obtain ⟨name, hw, hif⟩ := Option.bind_eq_some_iff.mp h
  by_cases hm : name ∈ s.numberingSystems
  · rw [name_of_honored? h] at hw
    rwa [Option.some.inj hw]
  · rw [if_neg hm] at hif
    cases hif

theorem effective_name (h : n.name ∈ s.numberingSystems ∨ s.effective none = n) :
    s.effective (some n.name) = n := by
  by_cases hm : n.name ∈ s.numberingSystems
  · rw [effective, honored?_name hm]
    rfl
  · have hn : s.effective (some n.name) = s.effective none := by
      rw [effective, Conventions.honored?_of_not_used hm]
      rfl
    rcases h with h | h
    · exact absurd h hm
    · rw [hn, h]

end Settings

namespace Conventions

variable {db : Database} {t : LanguageTag} {suggested : String}

theorem numberingSystemFor_listed (db : Database) (t : LanguageTag) (suggested : String) :
    (numberingSystemFor db t suggested).name ∈
        (db.settingsOrDefault t.baseName).numberingSystems ∨
      (db.settingsOrDefault t.baseName).effective none = numberingSystemFor db t suggested := by
  rw [numberingSystemFor_eq]
  cases h : ((db.settingsOrDefault t.baseName).honored? (t.keyword? "nu")).or
      ((db.settingsOrDefault t.baseName).honored? (some suggested)) with
  | none => exact .inr rfl
  | some n =>
    left
    rcases Option.or_eq_some_iff.mp h with h | ⟨-, h⟩
    · exact Settings.mem_of_honored? h
    · exact Settings.mem_of_honored? h

/-- The numbering system that the tag names is the one in effect. -/
theorem numberingSystemFor_of_named? {n : NumberingSystem} (h : named? db t = some n) :
    numberingSystemFor db t suggested = n := by
  rw [named?_eq] at h
  rw [numberingSystemFor_eq, h]
  rfl

end Conventions

namespace Database

variable {db : Database}

/-! ### The request that a formatter tells -/

theorem baseName_of_agreement {t base : LanguageTag} {wanted tagged : Option String}
    (hbase : base.id.IsCanonical)
    (h : LanguageTag.parse? (db.agreement base.baseName wanted tagged).fullTag = some t) :
    t.baseName = base.baseName := by
  have hempty : LanguageTag.parse? (base.baseName ++ "") = some t → t.baseName = base.baseName := by
    intro h
    rw [← Option.some.inj ((LanguageTag.parse?_baseName_append_empty hbase).symm.trans h)]
    rfl
  rw [agreement] at h
  split at h
  · rename_i nu _
    by_cases hk : tagged = some nu
    · rw [if_pos hk, Negotiated.fullTag, ← String.append_assoc] at h
      exact LanguageTag.baseName_of_parse?_append_nu hbase h
    · rw [if_neg hk] at h
      exact hempty h
  · exact hempty h

/-- The locale that is reported is read again, with the numbering system that the tag names. -/
theorem parse?_report (db : Database) {t base : LanguageTag} (hbase : base.id.IsCanonical)
    (ht : t.baseName = base.baseName) (suggested : String) :
    ∃ u, LanguageTag.parse? (Conventions.report db t suggested).locale = some u ∧
      u.baseName = base.baseName ∧
      u.keyword? "nu" = (Conventions.named? db t).map NumberingSystem.name := by
  rw [Conventions.report, ht]
  cases Conventions.named? db t with
  | none => exact ⟨⟨base.id, .empty⟩, LanguageTag.parse?_baseName hbase, rfl, rfl⟩
  | some n =>
    obtain ⟨htype, hlower⟩ := isType_of_isUnicodeType (isType_name n).1 (isType_name n).2
    obtain ⟨e, he, hk⟩ := LanguageTag.parse?_append_nu hbase htype hlower
    exact ⟨⟨base.id, e⟩, he, rfl, hk⟩

theorem matched?_self {t : LanguageTag} (h : db.contains t.baseName = true)
    (matcher : LocaleMatcher) : db.matched? [t] matcher = some (t.baseName, t) := by
  rw [matched?, List.findSome?_cons, bestAvailable?_of_contains h]
  rfl

/-- An available locale and a numbering system in the options are what is agreed on. -/
theorem negotiated_self {u : LanguageTag} (h : db.contains u.baseName = true) {config : Config}
    {nu : String} (hnu : config.numberingSystem = some nu) :
    db.negotiated [u] config = db.agreement u.baseName (some nu) (u.keyword? "nu") := by
  rw [negotiated, agreedLocale, wanted?, taggedNumberingSystem?, matched?_self h, hnu]
  rfl

/-- The engine comes to the numbering system in effect again, and to the same named one. -/
theorem agreement_again {t u base : LanguageTag} (hbase : base.id.IsCanonical)
    (ht : t.baseName = base.baseName) (suggested : String)
    (hk : u.keyword? "nu" = (Conventions.named? db t).map NumberingSystem.name) :
    ∃ v, LanguageTag.parse? (db.agreement base.baseName
          (some (Conventions.numberingSystemFor db t suggested).name) (u.keyword? "nu")).fullTag =
        some v ∧
      v.baseName = t.baseName ∧
      Conventions.numberingSystemFor db v ((db.agreement base.baseName
          (some (Conventions.numberingSystemFor db t suggested).name)
          (u.keyword? "nu")).numberingSystem.getD "") =
        Conventions.numberingSystemFor db t suggested ∧
      Conventions.named? db v = Conventions.named? db t := by
  have hwanted : ∀ name ∈ some (Conventions.numberingSystemFor db t suggested).name,
      name ∈ (db.settingsOrDefault base.baseName).numberingSystems →
        Subtag.isType name.toList = true ∧ Subtag.lower name.toList = name.toList := by
    intro name hname _
    obtain rfl := Option.some.inj hname
    exact isType_of_isUnicodeType (isType_name _).1 (isType_name _).2
  obtain ⟨v, hv, hbaseName, hfor, hnamed⟩ :=
    Conventions.agreement_report (u.keyword? "nu") hbase rfl hwanted
  have hlisted := Conventions.numberingSystemFor_listed db t suggested
  rw [ht] at hlisted
  refine ⟨v, hv, hbaseName.trans ht.symm, hfor.trans (Settings.effective_name hlisted), ?_⟩
  rw [hnamed, hk]
  cases hn : Conventions.named? db t with
  | none => rfl
  | some n =>
    rw [Conventions.numberingSystemFor_of_named? hn, Option.map_some, if_pos rfl]
    apply Settings.honored?_name
    rw [← ht]
    rw [Conventions.named?_eq] at hn
    exact Settings.mem_of_honored? hn

/-- What a formatter is bound to is the same again, but for what was asked for. -/
theorem boundTo_again {t v : LanguageTag} (hname : v.baseName = t.baseName) (config : Config)
    {suggested suggested' : String}
    (hfor : Conventions.numberingSystemFor db v suggested' =
      Conventions.numberingSystemFor db t suggested)
    (hnamed : Conventions.named? db v = Conventions.named? db t) (nu : String) :
    db.boundTo v (config.recorded nu) suggested' =
      { handle := { Conventions.ofTag db t config suggested with config := config.recorded nu }
        config := config.recorded nu
        resolved := .ofConfig config (Conventions.report db t suggested) } := by
  rw [boundTo, Conventions.ofTag, Conventions.report, hname, hfor, hnamed]
  rfl

/-- **What a formatter tells configures it again.**  A new formatter over the same database, asked
for the locale and the record that a configured one tells, tells the same, and writes and reads
every number alike. -/
theorem configured_again (hdb : db.Reachable) (hdefault : db.contains db.defaultLocale = true)
    {requested : Locales} {options : Options} {f : Formatter Id Conventions UnsupportedLocale}
    (hf : Id.run ((db.formatter.configure requested options).run) = .ok f) :
    ∃ r f', f.resolvedOptions = .ok r ∧
      Id.run ((db.formatter.configure [r.locale] r.toOptions).run) = .ok f' ∧
      f'.resolvedOptions = .ok r ∧
      (∀ x, (f'.formatNumber x).run = (f.formatNumber x).run) ∧
      (∀ v, (f'.format v).run = (f.format v).run) ∧
      ∀ v, (f'.parse v).run = (f.parse v).run := by
  obtain ⟨tags, config, t, -, hc, ht, rfl⟩ := configure_eq_ok_iff.mp hf
  obtain ⟨base, hbase, hl⟩ :=
    isBaseName_agreedLocale (isCanonical_of_reachable hdb) tags config.localeMatcher
  have havailable : db.contains base.baseName = true := by
    rw [hl]
    exact contains_agreedLocale hdefault tags config.localeMatcher
  rw [negotiated, ← hl] at ht
  have htBase : t.baseName = base.baseName := baseName_of_agreement hbase ht
  generalize (db.negotiated tags config).numberingSystem.getD "" = suggested
  -- The second request: its tag, its options and what is agreed on for them.
  obtain ⟨u, hu, huBase, hk⟩ := parse?_report db hbase htBase suggested
  obtain ⟨v, hv, hname, hfor, hnamed⟩ := agreement_again hbase htBase suggested hk
  have hc' : (Resolved.ofConfig config (Conventions.report db t suggested)).toOptions.validate =
      .ok (config.recorded (Conventions.numberingSystemFor db t suggested).name) :=
    validate_toOptions (bounded_of_validate hc) (isType_name _).1 (isType_name _).2
  have hagreed : db.negotiated [u]
        (config.recorded (Conventions.numberingSystemFor db t suggested).name) =
      db.agreement base.baseName (some (Conventions.numberingSystemFor db t suggested).name)
        (u.keyword? "nu") := by
    rw [← huBase]
    exact negotiated_self (by rwa [huBase]) rfl
  rw [← hagreed] at hv hfor
  have hf' := configure_eq_ok_iff.mpr ⟨[u], _, v, canonicalize_singleton hu, hc', hv, rfl⟩
  rw [boundTo_again hname config hfor hnamed] at hf'
  exact ⟨_, _, rfl, hf', rfl, fun x => rfl, fun w => rfl, fun w => rfl⟩

/-- A price in Chinese digits: the currency, the significant digits and the keyword of the tag are
all told again. -/
theorem configured_again_hanidec :
    standard.Reachable ∧ standard.contains standard.defaultLocale = true ∧
      ∃ f, Id.run ((standard.formatter.configure ["zh-hant-tw-u-nu-hanidec"]
          (.ofList [("style", Value.string "currency"), ("currency", .string "twd"),
            ("maximumSignificantDigits", .ofNat 4)])).run) = .ok f ∧
        ∃ r f', f.resolvedOptions = .ok r ∧
          Id.run ((standard.formatter.configure [r.locale] r.toOptions).run) = .ok f' ∧
          f'.resolvedOptions = .ok r := by
  have hDefault : standard.contains standard.defaultLocale = true := by decide
  have hOk : (Id.run ((standard.formatter.configure ["zh-hant-tw-u-nu-hanidec"]
      (.ofList [("style", Value.string "currency"), ("currency", .string "twd"),
        ("maximumSignificantDigits", .ofNat 4)])).run)).isOk = true := by
    decide +kernel
  cases hf : Id.run ((standard.formatter.configure ["zh-hant-tw-u-nu-hanidec"]
      (.ofList [("style", Value.string "currency"), ("currency", .string "twd"),
        ("maximumSignificantDigits", .ofNat 4)])).run) with
  | error e =>
    rw [hf] at hOk
    cases hOk
  | ok f =>
    obtain ⟨r, f', hr, hf', hr', -, -, -⟩ := configured_again .standard hDefault hf
    exact ⟨.standard, hDefault, f, rfl, r, f', hr, hf', hr'⟩

end Database

end Numeral
