import Numeral.Engine.Standard

/-!
# What the standard engine prepares

The engine prepares for every well-formed tag and for no other (`build_eq_ok_iff`).
-/

namespace Numeral.Conventions

theorem build_of_parse? {db : Database} {tag : String} {t : LanguageTag}
    (h : LanguageTag.parse? tag = some t) (config : Config) (given : Reported) :
    build db tag config given =
      .ok (ofTag db t config given.numberingSystem, report db t given.numberingSystem) := by
  rw [build, h]

theorem build_eq_ok_iff {db : Database} {tag : String} {config : Config} {given reported : Reported}
    {c : Conventions} :
    build db tag config given = .ok (c, reported) ↔
      ∃ t, LanguageTag.parse? tag = some t ∧ ofTag db t config given.numberingSystem = c ∧
        report db t given.numberingSystem = reported := by
  constructor
  · intro h
    cases ht : LanguageTag.parse? tag with
    | none =>
      rw [build, ht] at h
      cases h
    | some t =>
      rw [build_of_parse? ht] at h
      obtain ⟨hc, hr⟩ := Prod.mk.inj (Except.ok.inj h)
      exact ⟨t, rfl, hc, hr⟩
  · rintro ⟨t, ht, rfl, rfl⟩
    exact build_of_parse? ht config given

end Numeral.Conventions
