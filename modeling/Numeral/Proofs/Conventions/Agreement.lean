import Numeral.Engine.Standard
import Numeral.Proofs.Locale.Negotiation

/-!
# What is reported for what was agreed on

The engine reads the tag again that was agreed on, and decides on the numbering system once more.
It comes to the one that was asked for if the locale lists it and its digits are known, else to the
first one that the locale lists, and else to ASCII digits (`agreement_report`).
-/

namespace Numeral

namespace Settings

/-- The numbering system that is asked for, if it is in use in the locale and has known digits. -/
def honored? (s : Settings) (wanted : Option String) : Option NumberingSystem :=
  wanted.bind fun name =>
    if name ∈ s.numberingSystems then NumberingSystem.ofName? name else none

/-- The numbering system in effect: the one that is asked for, if it is honored, else the first one
of the locale, if its digits are known, and else ASCII digits. -/
def effective (s : Settings) (wanted : Option String) : NumberingSystem :=
  ((s.honored? wanted).or (s.numberingSystems.head?.bind NumberingSystem.ofName?)).getD .latn

theorem usesNumberingSystem_iff {s : Settings} {name : String} :
    s.usesNumberingSystem name = true ↔ name ∈ s.numberingSystems := List.contains_iff_mem

end Settings

namespace Conventions

variable {db : Database} {s : Settings} {t : LanguageTag} {wanted : Option String}

theorem usable?_eq (s : Settings) (name : String) : usable? s name = s.honored? (some name) := by
  rw [usable?]
  simp only [Settings.usesNumberingSystem_iff]
  rfl

theorem usable?_default (s : Settings) :
    usable? s s.defaultNumberingSystem = s.numberingSystems.head?.bind NumberingSystem.ofName? := by
  rw [usable?]
  cases h : s.numberingSystems with
  | nil =>
    rw [if_neg]
    · rfl
    · rw [Settings.usesNumberingSystem_iff, h]
      simp
  | cons a as =>
    rw [if_pos]
    · rw [Settings.defaultNumberingSystem, h]
      rfl
    · rw [Settings.usesNumberingSystem_iff, Settings.defaultNumberingSystem, h]
      exact List.mem_cons_self

theorem named?_eq (db : Database) (t : LanguageTag) :
    named? db t = (db.settingsOrDefault t.baseName).honored? (t.keyword? "nu") := by
  rw [named?, Settings.honored?]
  cases t.keyword? "nu" with
  | none => rfl
  | some name => exact usable?_eq _ name

theorem numberingSystemFor_eq (db : Database) (t : LanguageTag) (suggested : String) :
    numberingSystemFor db t suggested =
      ((((db.settingsOrDefault t.baseName).honored? (t.keyword? "nu")).or
        ((db.settingsOrDefault t.baseName).honored? (some suggested))).or
        ((db.settingsOrDefault t.baseName).numberingSystems.head?.bind
          NumberingSystem.ofName?)).getD .latn := by
  have hd := usable?_default (db.settingsOrDefault t.baseName)
  rw [numberingSystemFor]
  simp only [named?_eq, hd]
  rw [usable?_eq]

/-- Without a keyword in the tag, the numbering system that is suggested is the one asked for. -/
theorem numberingSystemFor_of_no_keyword (hk : t.keyword? "nu" = none) (suggested : String) :
    numberingSystemFor db t suggested =
      (db.settingsOrDefault t.baseName).effective (some suggested) := by
  rw [numberingSystemFor_eq, hk]
  rfl

theorem numberingSystemFor_of_keyword {name : String} (hk : t.keyword? "nu" = some name) :
    numberingSystemFor db t name = (db.settingsOrDefault t.baseName).effective (some name) := by
  rw [numberingSystemFor_eq, hk, Option.or_self]
  rfl

theorem named?_of_no_keyword (hk : t.keyword? "nu" = none) : named? db t = none := by
  rw [named?_eq, hk]
  rfl

theorem effective_default (s : Settings) :
    s.effective (some s.defaultNumberingSystem) = s.effective none := by
  have hd := usable?_default s
  rw [usable?_eq] at hd
  rw [Settings.effective, Settings.effective, hd, Option.or_self]
  rfl

theorem honored?_of_not_used {name : String} (h : name ∉ s.numberingSystems) :
    s.honored? (some name) = none := if_neg h

/-- **What is reported for what was agreed on.**  The tag that was agreed on is read again, with the
numbering system in effect and the keyword that was kept. -/
theorem agreement_report (tagged : Option String) (ht : t.id.IsCanonical)
    (hs : db.settingsOrDefault t.baseName = s)
    (hwanted : ∀ name ∈ wanted, name ∈ s.numberingSystems →
      Subtag.isType name.toList = true ∧ Subtag.lower name.toList = name.toList) :
    ∃ u, LanguageTag.parse? (db.agreement t.baseName wanted tagged).fullTag = some u ∧
      u.baseName = t.baseName ∧
      numberingSystemFor db u ((db.agreement t.baseName wanted tagged).numberingSystem.getD "") =
        s.effective wanted ∧
      named? db u = if tagged = wanted then s.honored? wanted else none := by
  have hplain := LanguageTag.parse?_baseName_append_empty ht
  have hbase : (⟨t.id, .empty⟩ : LanguageTag).baseName = t.baseName := rfl
  have hnone : (⟨t.id, .empty⟩ : LanguageTag).keyword? "nu" = none := rfl
  -- Without a numbering system that the locale lists, the tag is the base name.
  have hdefault : s.honored? wanted = none → ∃ u,
      LanguageTag.parse? (t.baseName ++ "") = some u ∧ u.baseName = t.baseName ∧
      numberingSystemFor db u s.defaultNumberingSystem = s.effective wanted ∧
      named? db u = if tagged = wanted then s.honored? wanted else none := by
    intro hn
    refine ⟨⟨t.id, .empty⟩, hplain, hbase, ?_, ?_⟩
    · rw [numberingSystemFor_of_no_keyword hnone, hbase, hs, effective_default, Settings.effective,
        Settings.effective, hn]
      rfl
    · rw [named?_of_no_keyword hnone, hn, ite_self]
  rw [Database.agreement, hs]
  cases hw : wanted with
  | none =>
    rw [hw] at hdefault
    exact hdefault rfl
  | some name =>
    rw [hw] at hdefault
    by_cases hu : name ∈ s.numberingSystems
    · obtain ⟨htype, hlower⟩ := hwanted name hw hu
      rw [Option.filter_some, if_pos (Settings.usesNumberingSystem_iff.mpr hu)]
      simp only [Negotiated.fullTag, Option.getD_some]
      by_cases hk : tagged = some name
      · obtain ⟨e, he, hkeyword⟩ := LanguageTag.parse?_append_nu ht htype hlower
        have hsettings : db.settingsOrDefault (⟨t.id, e⟩ : LanguageTag).baseName = s := hs
        refine ⟨⟨t.id, e⟩, ?_, rfl, ?_, ?_⟩
        · rw [if_pos hk, ← String.append_assoc, he]
        · rw [numberingSystemFor_of_keyword hkeyword, hsettings]
        · rw [if_pos hk, named?_eq, hkeyword, hsettings]
      · rw [if_neg hk, if_neg hk]
        refine ⟨⟨t.id, .empty⟩, hplain, hbase, ?_, named?_of_no_keyword hnone⟩
        rw [numberingSystemFor_of_no_keyword hnone, hbase, hs]
    · rw [Option.filter_some, if_neg fun h => hu (Settings.usesNumberingSystem_iff.mp h)]
      exact hdefault (honored?_of_not_used hu)

end Conventions

end Numeral
