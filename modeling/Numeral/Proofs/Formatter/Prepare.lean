import Numeral.Formatter.Basic
import Numeral.Proofs.Outcome

/-!
# What a formatter is prepared for

A formatter that is bound is prepared for nothing more.  One that is not is bound to what the
engine makes of the configuration and the locale that a request leads to, and only a request whose
options pass their checks leads there.
-/

namespace Numeral

/-- What a formatter is bound to by what came of a call to the engine. -/
def Bound.ofBuild {H ε : Type} (config : Config) :
    Except ε (H × Reported) → Except (FormatError ε) (Bound H)
  | .error e => .error (.engine e)
  | .ok (handle, reported) => .ok ⟨handle, config, .ofConfig config reported⟩

/-- What the checked options ask of the locale besides its tag. -/
def Config.extensions (config : Config) : Std.TreeMap String String :=
  match config.numberingSystem with
  | some nu => .ofList [("nu", nu)]
  | none => ∅

namespace Formatter

variable {m : Type → Type} [Monad m] [LawfulMonad m] {H ε : Type} {f : Formatter m H ε}
  {b : Bound H}

theorem prepare_of_bound (hb : f.bound = some b) (requested : Locales) (options : Options) :
    (f.prepare requested options).run = pure (.error .alreadyConfigured) := by
  have hc : f.isConfigured = true := by rw [isConfigured, hb]; rfl
  unfold prepare
  rw [if_pos hc, ExceptT.run_bind, ExceptT.run_throw, pure_bind]

theorem prepare_of_not_bound (hf : f.bound = none) (requested : Locales) (options : Options) :
    (f.prepare requested options).run =
      match negotiate f.resolver requested options with
      | .error e => pure (.error e)
      | .ok (config, negotiated) =>
        Bound.ofBuild config <$> (f.engine.build negotiated.fullTag config
          ⟨negotiated.fullTag, negotiated.numberingSystem.getD ""⟩).run := by
  have hc : ¬ f.isConfigured = true := by simp [isConfigured, hf]
  unfold prepare
  rw [if_neg hc]
  rcases negotiate f.resolver requested options with e | ⟨config, negotiated⟩
  · rw [liftExcept, ExceptT.run_bind, ExceptT.run_throw, pure_bind]
  · rw [liftExcept, ExceptT.run_bind, ExceptT.run_pure, pure_bind]
    simp only []
    rw [ExceptT.run_bind, ExceptT.run_adapt, bind_map_left, map_eq_pure_bind]
    congr
    funext outcome
    rcases outcome with e | ⟨handle, reported⟩
    · rfl
    · rfl

/-- Configuring a formatter is binding it to what it is prepared for. -/
theorem configure_run (f : Formatter m H ε) (requested : Locales) (options : Options) :
    (f.configure requested options).run =
      Except.map (fun b => { f with bound := some b }) <$> (f.prepare requested options).run := by
  rw [configure, bind_pure_comp, ExceptT.run_map]

variable {resolver : Resolver ε} {requested : Locales} {options : Options} {config : Config}
  {negotiated : Negotiated}

/-- What is agreed on is what the resolver answers to the checked options. -/
theorem of_negotiate (h : negotiate resolver requested options = .ok (config, negotiated)) :
    options.validate = .ok config ∧
      resolver requested config.extensions config.localeMatcher = .ok negotiated := by
  unfold negotiate at h
  obtain ⟨-, -, h⟩ := bind_eq_ok_iff.mp h
  obtain ⟨-, -, h⟩ := bind_eq_ok_iff.mp h
  obtain ⟨c, hc, h⟩ := bind_eq_ok_iff.mp h
  obtain ⟨n, hn, h⟩ := bind_eq_ok_iff.mp h
  obtain ⟨rfl, rfl⟩ := Prod.mk.inj (pure_eq_ok_iff.mp h)
  exact ⟨mapError_eq_ok_iff.mp hc, hn⟩

end Formatter

end Numeral
