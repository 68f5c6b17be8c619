import Numeral.Proofs.Conventions.Agreement
import Numeral.Proofs.Conventions.Build
import Numeral.Proofs.Formatter.Prepare

/-!
# Formatters over a database alone

When the database both agrees on the locale and prepares for it, a request succeeds exactly when
its tags are well-formed, its options pass their checks and the tag that is agreed on is read again
(`configure_eq_ok_iff`).  Under a canonical database the last of these is never what fails for a
numbering system that is a type of locale tags.
-/

namespace Numeral

theorem localeMatcher_of_validate {o : Options} {config : Config} (h : o.validate = .ok config) :
    o.localeMatcher = .ok config.localeMatcher := by
  obtain ⟨matcher, hmatcher, h⟩ := bind_eq_ok_iff.mp h
  obtain ⟨style, -, h⟩ := bind_eq_ok_iff.mp h
  obtain ⟨integer, -, h⟩ := bind_eq_ok_iff.mp h
  obtain ⟨fraction, -, h⟩ := bind_eq_ok_iff.mp h
  obtain ⟨significant, -, h⟩ := bind_eq_ok_iff.mp h
  obtain ⟨numberingSystem, -, h⟩ := bind_eq_ok_iff.mp h
  rw [hmatcher, ← pure_eq_ok_iff.mp h]

namespace Database

variable {db : Database} {requested : Locales} {options : Options} {tags : List LanguageTag}
  {config : Config}

/-- The numbering system that is asked for, by the options before the tag. -/
def wanted? (db : Database) (tags : List LanguageTag) (config : Config) : Option String :=
  config.numberingSystem.or (db.taggedNumberingSystem? tags config.localeMatcher)

/-- What is agreed on for the tags of a request and its checked options. -/
def negotiated (db : Database) (tags : List LanguageTag) (config : Config) : Negotiated :=
  db.agreement (db.agreedLocale tags config.localeMatcher) (db.wanted? tags config)
    (db.taggedNumberingSystem? tags config.localeMatcher)

theorem getElem?_extensions (o : Option String) :
    (match o with
      | some nu => .ofList [("nu", nu)]
      | none => ∅ : Std.TreeMap String String)["nu"]? = o := by
  cases o with
  | none => rfl
  | some nu => simp

theorem negotiate_eq_ok_iff {ε : Type} {n : Negotiated} :
    Formatter.negotiate (db.resolver ε) requested options = .ok (config, n) ↔
      ∃ tags, canonicalize requested = .ok tags ∧ options.validate = .ok config ∧
        db.negotiated tags config = n := by
  have hresolve : ∀ (tags : List LanguageTag) (config : Config),
      db.resolveTags tags (match config.numberingSystem with
        | some nu => .ofList [("nu", nu)]
        | none => ∅) config.localeMatcher = db.negotiated tags config := by
    intro tags config
    rw [resolveTags_eq, getElem?_extensions]
    rfl
  unfold Formatter.negotiate
  constructor
  · intro h
    obtain ⟨-, -, h⟩ := bind_eq_ok_iff.mp h
    obtain ⟨tags, htags, h⟩ := bind_eq_ok_iff.mp h
    obtain ⟨c, hc, h⟩ := bind_eq_ok_iff.mp h
    obtain ⟨m, hm, h⟩ := bind_eq_ok_iff.mp h
    obtain ⟨rfl, rfl⟩ := Prod.mk.inj (pure_eq_ok_iff.mp h)
    have htags := mapError_eq_ok_iff.mp htags
    rw [Database.resolver, resolve, htags] at hm
    refine ⟨tags, htags, mapError_eq_ok_iff.mp hc, ?_⟩
    rw [← hresolve]
    exact Except.ok.inj hm
  · rintro ⟨tags, htags, hc, rfl⟩
    rw [localeMatcher_of_validate hc, htags, hc]
    simp only [Database.resolver, resolve, htags]
    rw [← hresolve]
    rfl

/-- What a formatter is bound to when the engine reads the tag `t`. -/
def boundTo (db : Database) (t : LanguageTag) (config : Config) (suggested : String) :
    Bound Conventions where
  handle := .ofTag db t config suggested
  config := config
  resolved := .ofConfig config (Conventions.report db t suggested)

theorem prepare_run (db : Database) (requested : Locales) (options : Options) :
    Id.run ((db.formatter.prepare requested options).run) =
      Formatter.negotiate (db.resolver UnsupportedLocale) requested options >>= fun p =>
        Bound.ofBuild p.1 (Conventions.build db p.2.fullTag p.1
          ⟨p.2.fullTag, p.2.numberingSystem.getD ""⟩) := by
  have hresolver : (db.formatter : Formatter Id _ _).resolver = db.resolver UnsupportedLocale := rfl
  rw [Formatter.prepare_of_not_bound rfl, hresolver]
  rcases Formatter.negotiate (db.resolver UnsupportedLocale) requested options with e | p
  · rfl
  · rfl

theorem ofBuild_eq_ok_iff {tag : String} {given : Reported} {b : Bound Conventions} :
    Bound.ofBuild config (Conventions.build db tag config given) = .ok b ↔
      ∃ t, LanguageTag.parse? tag = some t ∧ db.boundTo t config given.numberingSystem = b := by
  cases ht : LanguageTag.parse? tag with
  | none => simp [Conventions.build, ht, Bound.ofBuild]
  | some t => simp [Conventions.build, ht, Bound.ofBuild, boundTo]

/-- A formatter over a database is configured exactly when the request is well-formed, its options
pass their checks and the tag that is agreed on can be read. -/
theorem configure_eq_ok_iff {f : Formatter Id Conventions UnsupportedLocale} :
    Id.run ((db.formatter.configure requested options).run) = .ok f ↔
      ∃ tags config t, canonicalize requested = .ok tags ∧ options.validate = .ok config ∧
        LanguageTag.parse? (db.negotiated tags config).fullTag = some t ∧
        f = { db.formatter with
          bound := some
            (db.boundTo t config ((db.negotiated tags config).numberingSystem.getD "")) } := by
  rw [Formatter.configure_run]
  constructor
  · intro h
    obtain ⟨b, hb, rfl⟩ := map_eq_ok_iff.mp h
    obtain ⟨⟨config, n⟩, hn, hb⟩ :=
      bind_eq_ok_iff.mp ((prepare_run db requested options).symm.trans hb)
    obtain ⟨tags, htags, hc, rfl⟩ := negotiate_eq_ok_iff.mp hn
    obtain ⟨t, ht, rfl⟩ := ofBuild_eq_ok_iff.mp hb
    exact ⟨tags, config, t, htags, hc, ht, rfl⟩
  · rintro ⟨tags, config, t, htags, hc, ht, rfl⟩
    refine map_eq_ok_iff.mpr ⟨_, (prepare_run db requested options).trans ?_, rfl⟩
    exact bind_eq_ok_iff.mpr ⟨(config, db.negotiated tags config),
      negotiate_eq_ok_iff.mpr ⟨tags, htags, hc, rfl⟩, ofBuild_eq_ok_iff.mpr ⟨t, ht, rfl⟩⟩

end Database

end Numeral
