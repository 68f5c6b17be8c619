import Numeral.Formatter.Run
import Numeral.Proofs.Formatter.Prepare

/-!
# What a request takes of the engine

A request is answered at once or with one call of the engine, and what is to be called does not
depend on the state that the engine has: `step_eq_serve` takes a step apart into the demand that a
request makes and the serving of it.
-/

namespace Numeral

/-- Whether the engine is needed for the answer. -/
def Query.isUse : Query → Bool
  | format _ | formatNumber _ | parse _ => true
  | resolvedOptions | isConfigured | config => false

/-- The number that is to be written. -/
def Query.number? : Query → Option Binary64
  | format v => v.toNumber?
  | formatNumber x => some x
  | parse _ | resolvedOptions | isConfigured | config => none

/-- The text that is to be read. -/
def Query.text? : Query → Option String
  | parse v => v.toText?
  | format _ | formatNumber _ | resolvedOptions | isConfigured | config => none

/-- What a request takes of an engine. -/
inductive Demand (H ε : Type) where
  /-- Nothing: it is answered at once. -/
  | nothing (a : Except (FormatError ε) Answer)
  /-- To prepare for a configuration and a locale. -/
  | build (config : Config) (negotiated : Negotiated)
  /-- To write a number. -/
  | format (handle : H) (x : Binary64)
  /-- To read a text. -/
  | parse (handle : H) (text : String)

namespace Formatter

variable {m : Type → Type} {H ε : Type} {f : Formatter m H ε}

/-- What a request takes of the engine of a formatter. -/
def demand (f : Formatter m H ε) : Request → Demand H ε
  | .configure requested options =>
    match f.bound with
    | some _ => .nothing (.error .alreadyConfigured)
    | none =>
      match negotiate f.resolver requested options with
      | .error e => .nothing (.error e)
      | .ok (config, negotiated) => .build config negotiated
  | .ask (.format v) =>
    match f.bound with
    | none => .nothing (.error (.notConfigured .format))
    | some b =>
      match v.toNumber? with
      | none => .nothing (.error (.argument v .number))
      | some x => .format b.handle x.unsignedZero
  | .ask (.formatNumber x) =>
    match f.bound with
    | none => .nothing (.error (.notConfigured .format))
    | some b => .format b.handle x.unsignedZero
  | .ask (.parse v) =>
    match f.bound with
    | none => .nothing (.error (.notConfigured .parse))
    | some b =>
      match v.toText? with
      | none => .nothing (.error (.argument v .string))
      | some s => .parse b.handle s
  | .ask .resolvedOptions => .nothing (f.resolvedOptions.map .resolved)
  | .ask .isConfigured => .nothing (.ok (.state f.isConfigured))
  | .ask .config => .nothing (.ok (.config f.config?))

/-! ### What leads to a demand -/

/-- What a formatter takes of its engine for a request, and why. -/
inductive Demands (f : Formatter m H ε) : Request → Demand H ε → Prop where
  /-- Nothing, and where the engine is needed for the answer there is an error that is not one of
  the engine. -/
  | nothing {r : Request} {a : Except (FormatError ε) Answer} :
      (∀ q, r = .ask q → q.isUse = true → ∃ e, a = .error e ∧ ∀ e', e ≠ .engine e') →
      f.Demands r (.nothing a)
  /-- To prepare for what a request that passes its checks leads to. -/
  | build {requested : Locales} {options : Options} {config : Config} {negotiated : Negotiated} :
      f.bound = none →
      negotiate f.resolver requested options = .ok (config, negotiated) →
      f.Demands (.configure requested options) (.build config negotiated)
  /-- To write a number, which is never the negative zero. -/
  | format {b : Bound H} {q : Query} {x : Binary64} :
      f.bound = some b → q.number? = some x →
      f.Demands (.ask q) (.format b.handle x.unsignedZero)
  /-- To read a text. -/
  | parse {b : Bound H} {q : Query} {s : String} :
      f.bound = some b → q.text? = some s →
      f.Demands (.ask q) (.parse b.handle s)

theorem demands_refused {q : Query} {e : FormatError ε} (he : ∀ e', e ≠ .engine e') :
    f.Demands (.ask q) (.nothing (.error e)) :=
  .nothing fun _ _ _ => ⟨e, rfl, he⟩

theorem demands_told {q : Query} (hq : q.isUse = false) (a : Except (FormatError ε) Answer) :
    f.Demands (.ask q) (.nothing a) := by
  refine .nothing ?_
  rintro _ ⟨⟩ hUse
  rw [hq] at hUse
  cases hUse

theorem demands_demand (f : Formatter m H ε) (r : Request) : f.Demands r (f.demand r) := by
  cases r with
  | configure requested options =>
    rw [demand]
    cases hb : f.bound with
    | some b => exact .nothing (by simp)
    | none =>
      rcases hn : negotiate f.resolver requested options with e | ⟨config, negotiated⟩
      · exact .nothing (by simp)
      · exact .build hb hn
  | ask q =>
    cases q with
    | format v =>
      rw [demand]
      cases hb : f.bound with
      | none => exact demands_refused (by simp)
      | some b =>
        cases hv : v.toNumber? with
        | none => exact demands_refused (by simp)
        | some x => exact .format hb hv
    | formatNumber x =>
      rw [demand]
      cases hb : f.bound with
      | none => exact demands_refused (by simp)
      | some b => exact .format hb rfl
    | parse v =>
      rw [demand]
      cases hb : f.bound with
      | none => exact demands_refused (by simp)
      | some b =>
        cases hv : v.toText? with
        | none => exact demands_refused (by simp)
        | some s => exact .parse hb hv
    | resolvedOptions => exact demands_told rfl _
    | isConfigured => exact demands_told rfl _
    | config => exact demands_told rfl _

/-! ### What serves a demand -/

/-- The answer by what came of a call to prepare, and the formatter after it. -/
def settle (f : Formatter m H ε) (config : Config) (built : Except ε (H × Reported)) :
    Except (FormatError ε) Answer × Formatter m H ε :=
  match Bound.ofBuild config built with
  | .error e => (.error e, f)
  | .ok b => (.ok .configured, { f with bound := some b })

variable [Monad m]

/-- Serves a demand with at most one call of the engine. -/
def serve (f : Formatter m H ε) : Demand H ε → m (Except (FormatError ε) Answer × Formatter m H ε)
  | .nothing a => pure (a, f)
  | .build config negotiated =>
    f.settle config <$> (f.engine.build negotiated.fullTag config
      ⟨negotiated.fullTag, negotiated.numberingSystem.getD ""⟩).run
  | .format handle x =>
    (fun written => ((written.map .text).mapError .engine, f)) <$> (f.engine.format handle x).run
  | .parse handle text =>
    (fun read => ((read.map .number).mapError .engine, f)) <$> (f.engine.parse handle text).run

variable [LawfulMonad m]

theorem step_configure_eq (f : Formatter m H ε) (requested : Locales) (options : Options) :
    f.step (.configure requested options) =
      (fun bound => match bound with
        | .error e => (.error e, f)
        | .ok b => (.ok .configured, { f with bound := some b })) <$>
        (f.prepare requested options).run := by
  rw [step, configure_run, bind_map_left, map_eq_pure_bind]
  congr
  funext bound
  rcases bound with e | b
  · rfl
  · rfl

theorem step_ask_eq (f : Formatter m H ε) (q : Query) :
    f.step (.ask q) = (fun a => (a, f)) <$> (f.answer q).run := by
  rw [step, bind_pure_comp]

theorem run_tagged {α : Type} (tag : α → Answer) (x : ExceptT (FormatError ε) m α) :
    (x >>= fun a => pure (tag a)).run = Except.map tag <$> x.run := by
  rw [bind_pure_comp, ExceptT.run_map]

theorem formatNumber_run (f : Formatter m H ε) (x : Binary64) :
    (f.formatNumber x).run =
      match f.bound with
      | none => pure (.error (.notConfigured .format))
      | some b => Except.mapError .engine <$> (f.engine.format b.handle x.unsignedZero).run := by
  rw [formatNumber, boundFor]
  cases f.bound with
  | none => rw [liftExcept, ExceptT.run_bind, ExceptT.run_throw, pure_bind]
  | some b => rw [liftExcept, pure_bind, ExceptT.run_adapt]

theorem format_run (f : Formatter m H ε) (v : Value) :
    (f.format v).run =
      match f.bound with
      | none => pure (.error (.notConfigured .format))
      | some _ =>
        match v.toNumber? with
        | none => pure (.error (.argument v .number))
        | some x => (f.formatNumber x).run := by
  rw [format, boundFor]
  cases f.bound with
  | none => rw [liftExcept, ExceptT.run_bind, ExceptT.run_throw, pure_bind]
  | some b =>
    rw [liftExcept, pure_bind]
    cases v.toNumber? with
    | none => rfl
    | some x => rfl

theorem parse_run (f : Formatter m H ε) (v : Value) :
    (f.parse v).run =
      match f.bound with
      | none => pure (.error (.notConfigured .parse))
      | some b =>
        match v.toText? with
        | none => pure (.error (.argument v .string))
        | some s => Except.mapError .engine <$> (f.engine.parse b.handle s).run := by
  rw [parse, boundFor]
  cases f.bound with
  | none => rw [liftExcept, ExceptT.run_bind, ExceptT.run_throw, pure_bind]
  | some b =>
    rw [liftExcept, pure_bind]
    cases v.toText? with
    | none => rfl
    | some s => rw [ExceptT.run_adapt]

/-- What came of a call is the answer, whether the error or the value is tagged first. -/
theorem map_tagged {α : Type} (f : Formatter m H ε) (tag : α → Answer) (call : m (Except ε α)) :
    (fun a => (a, f)) <$> Except.map tag <$> Except.mapError FormatError.engine <$> call =
      (fun came => ((came.map tag).mapError FormatError.engine, f)) <$> call := by
  rw [Functor.map_map, Functor.map_map]
  congr
  funext came
  rcases came with e | a
  · rfl
  · rfl

/-- **A step serves the demand that its request makes.** -/
theorem step_eq_serve (f : Formatter m H ε) (r : Request) : f.step r = f.serve (f.demand r) := by
  cases r with
  | configure requested options =>
    rw [step_configure_eq, demand]
    cases hb : f.bound with
    | some b => rw [prepare_of_bound hb, map_pure, serve]
    | none =>
      rw [prepare_of_not_bound hb]
      rcases negotiate f.resolver requested options with e | ⟨config, negotiated⟩
      · rw [map_pure, serve]
      · simp only []
        rw [serve, Functor.map_map]
        rfl
  | ask q =>
    rw [step_ask_eq]
    cases q with
    | format v =>
      rw [answer, run_tagged, format_run, demand]
      cases hb : f.bound with
      | none => simp only [map_pure, serve, Except.map]
      | some b =>
        cases v.toNumber? with
        | none => simp only [map_pure, serve, Except.map]
        | some x =>
          simp only []
          rw [formatNumber_run, hb, serve]
          exact map_tagged f .text _
    | formatNumber x =>
      rw [answer, run_tagged, formatNumber_run, demand]
      cases f.bound with
      | none => simp only [map_pure, serve, Except.map]
      | some b => exact map_tagged f .text _
    | parse v =>
      rw [answer, run_tagged, parse_run, demand]
      cases f.bound with
      | none => simp only [map_pure, serve, Except.map]
      | some b =>
        cases v.toText? with
        | none => simp only [map_pure, serve, Except.map]
        | some s => exact map_tagged f .number _
    | resolvedOptions =>
      rw [answer, run_tagged, demand, serve]
      cases f.resolvedOptions with
      | error e => rw [liftExcept, ExceptT.run_throw, map_pure, map_pure]
      | ok r => rw [liftExcept, ExceptT.run_pure, map_pure, map_pure]
    | isConfigured => rw [answer, demand, serve, ExceptT.run_pure, map_pure]
    | config => rw [answer, demand, serve, ExceptT.run_pure, map_pure]

end Formatter

end Numeral
