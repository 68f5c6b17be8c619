import Numeral.Proofs.Formatter.Demand

/-!
# The life of a formatter

A formatter is configured at most once.  Until a request to configure succeeds it is as good as
new: the requests that failed have left nothing behind but what the engine has kept for itself.
From then on it is bound, and nothing changes what it is bound to.

Engines here have a state of their own, of any type, that every call may read and change.  An
engine without one is the case of a type with a single value.

`step_configure` and `step_ask` say once what a request does.  Two facts are kept by every step and
so by every run: a step that does not answer that the formatter is configured leaves it as it was,
and so does every step of a formatter that is bound.  `lifeCycle` reads the whole life off them.
-/

namespace Numeral

variable {σ H ε : Type}

/-- The answer to a query of a formatter that is not configured. -/
def Query.refusal : Query → Except (FormatError ε) Answer
  | .format _ => .error (.notConfigured .format)
  | .formatNumber _ => .error (.notConfigured .format)
  | .parse _ => .error (.notConfigured .parse)
  | .resolvedOptions => .error (.notConfigured .resolvedOptions)
  | .isConfigured => .ok (.state false)
  | .config => .ok (.config none)

/-- A request binds a formatter to `b` and takes the engine from the state `s` to the state `t`. -/
structure Binds (engine : Engine (StateM σ) H ε) (resolver : Resolver ε) (requested : Locales)
    (options : Options) (s t : σ) (b : Bound H) : Prop where
  validated : options.validate = .ok b.config
  built : ∃ negotiated reported,
    Formatter.negotiate resolver requested options = .ok (b.config, negotiated) ∧
    (engine.build negotiated.fullTag b.config
      ⟨negotiated.fullTag, negotiated.numberingSystem.getD ""⟩).run.run s
        = (.ok (b.handle, reported), t) ∧
    b.resolved.locale = reported.locale ∧
    b.resolved.numberingSystem = reported.numberingSystem
  style : b.resolved.style = b.config.style
  useGrouping : b.resolved.useGrouping = b.config.useGrouping
  minimumIntegerDigits : b.resolved.minimumIntegerDigits = b.config.minimumIntegerDigits
  fractionDigits : b.resolved.fractionDigits = b.config.fractionDigits
  significantDigits : b.resolved.significantDigits = b.config.significantDigits

namespace Formatter

/-- The answers to requests one after the other, for an engine in the state `s` at first. -/
def answers (f : Formatter (StateM σ) H ε) (s : σ) (rs : List Request) :
    List (Except (FormatError ε) Answer) := ((f.run rs).run s).1.1

/-- The formatter and the state of its engine after requests one after the other. -/
def after (f : Formatter (StateM σ) H ε) (s : σ) (rs : List Request) :
    Formatter (StateM σ) H ε × σ := (((f.run rs).run s).1.2, ((f.run rs).run s).2)

variable {f : Formatter (StateM σ) H ε} {s t : σ} {b : Bound H}

/-! ### One step -/

theorem step_configure (f : Formatter (StateM σ) H ε) (requested : Locales) (options : Options)
    (s : σ) :
    (f.step (.configure requested options)).run s =
      match (f.prepare requested options).run.run s with
      | (.error e, t) => ((.error e, f), t)
      | (.ok b, t) => ((.ok .configured, { f with bound := some b }), t) := by
  rw [step_configure_eq, StateT.run_map]
  rcases (f.prepare requested options).run.run s with ⟨e | b, t⟩
  · rfl
  · rfl

/-- A request that fails before the engine is asked changes nothing. -/
theorem step_of_prepare_error {requested : Locales} {options : Options} {e : FormatError ε}
    (h : (f.prepare requested options).run = pure (.error e)) (s : σ) :
    (f.step (.configure requested options)).run s = ((.error e, f), s) := by
  rw [step_configure, h]
  rfl

theorem step_ask (f : Formatter (StateM σ) H ε) (q : Query) (s : σ) :
    (f.step (.ask q)).run s = ((((f.answer q).run.run s).1, f), ((f.answer q).run.run s).2) := rfl

theorem tagged_ne_configured {α : Type} {tag : α → Answer} (htag : ∀ a, tag a ≠ .configured)
    (x : ExceptT (FormatError ε) (StateM σ) α) (s : σ) :
    ((x >>= fun a => pure (tag a)).run.run s).1 ≠ .ok .configured := by
  rw [run_bind]
  rcases x.run.run s with ⟨e | a, t⟩
  · intro h
    cases h
  · intro h
    exact htag a (Except.ok.inj h)

theorem answer_ne_configured (f : Formatter (StateM σ) H ε) (q : Query) (s : σ) :
    ((f.answer q).run.run s).1 ≠ .ok .configured := by
  cases q with
  | format v => exact tagged_ne_configured (by simp) (f.format v) s
  | formatNumber x => exact tagged_ne_configured (by simp) (f.formatNumber x) s
  | parse v => exact tagged_ne_configured (by simp) (f.parse v) s
  | resolvedOptions => exact tagged_ne_configured (by simp) (liftExcept f.resolvedOptions) s
  | isConfigured => intro h; cases h
  | config => intro h; cases h

theorem answer_of_not_bound (hf : f.bound = none) (q : Query) (s : σ) :
    (f.answer q).run.run s = (q.refusal, s) := by
  cases q with
  | format v => simp only [answer, format, boundFor, hf]; rfl
  | formatNumber x => simp only [answer, formatNumber, boundFor, hf]; rfl
  | parse v => simp only [answer, parse, boundFor, hf]; rfl
  | resolvedOptions => simp only [answer, resolvedOptions, boundFor, hf]; rfl
  | isConfigured => simp only [answer, isConfigured, hf]; rfl
  | config => simp only [answer, config?, hf]; rfl

theorem answer_resolvedOptions_of_bound (hb : f.bound = some b) (s : σ) :
    (f.answer .resolvedOptions).run.run s = (.ok (.resolved b.resolved), s) := by
  simp only [answer, resolvedOptions, boundFor, hb]; rfl

theorem answer_isConfigured_of_bound (hb : f.bound = some b) (s : σ) :
    (f.answer .isConfigured).run.run s = (.ok (.state true), s) := by
  simp only [answer, isConfigured, hb]; rfl

theorem answer_config_of_bound (hb : f.bound = some b) (s : σ) :
    (f.answer .config).run.run s = (.ok (.config (some b.config)), s) := by
  simp only [answer, config?, hb]; rfl

/-- A step that does not answer that the formatter is configured leaves it as it was. -/
theorem step_eq_of_ne_configured {r : Request}
    (hr : ((f.step r).run s).1.1 ≠ .ok .configured) : ((f.step r).run s).1.2 = f := by
  cases r with
  | ask q => rw [step_ask]
  | configure requested options =>
    rw [step_configure] at hr ⊢
    rcases h : (f.prepare requested options).run.run s with ⟨e | b, t⟩
    · rfl
    · rw [h] at hr
      exact absurd rfl hr

/-- Every step of a formatter that is bound leaves it as it was. -/
theorem step_eq_of_bound (hb : f.bound = some b) (r : Request) (s : σ) :
    ((f.step r).run s).1.2 = f := by
  cases r with
  | ask q => rw [step_ask]
  | configure requested options =>
    rw [step_of_prepare_error (prepare_of_bound hb requested options)]

/-! ### A row of steps -/

theorem answers_cons (f : Formatter (StateM σ) H ε) (r : Request) (rs : List Request) (s : σ) :
    f.answers s (r :: rs) =
      ((f.step r).run s).1.1 :: ((f.step r).run s).1.2.answers ((f.step r).run s).2 rs := rfl

theorem after_cons (f : Formatter (StateM σ) H ε) (r : Request) (rs : List Request) (s : σ) :
    f.after s (r :: rs) = ((f.step r).run s).1.2.after ((f.step r).run s).2 rs := rfl

theorem length_answers (f : Formatter (StateM σ) H ε) (rs : List Request) (s : σ) :
    (f.answers s rs).length = rs.length := by
  induction rs generalizing f s with
  | nil => rfl
  | cons r rs ih => rw [answers_cons, List.length_cons, List.length_cons, ih]

theorem answers_append (f : Formatter (StateM σ) H ε) (rs rs' : List Request) (s : σ) :
    f.answers s (rs ++ rs') =
      f.answers s rs ++ (f.after s rs).1.answers (f.after s rs).2 rs' := by
  induction rs generalizing f s with
  | nil => rfl
  | cons r rs ih => rw [List.cons_append, answers_cons, answers_cons, after_cons, ih,
      List.cons_append]

theorem after_append (f : Formatter (StateM σ) H ε) (rs rs' : List Request) (s : σ) :
    f.after s (rs ++ rs') = (f.after s rs).1.after (f.after s rs).2 rs' := by
  induction rs generalizing f s with
  | nil => rfl
  | cons r rs ih => rw [List.cons_append, after_cons, after_cons, ih]

/-- As long as no answer says that the formatter is configured, it is the one it was. -/
theorem after_eq_of_not_configured {rs : List Request}
    (hrs : .ok .configured ∉ f.answers s rs) : (f.after s rs).1 = f := by
  induction rs generalizing s with
  | nil => rfl
  | cons r rs ih =>
    rw [answers_cons, List.mem_cons, not_or] at hrs
    obtain ⟨hr, hrs⟩ := hrs
    have hf : ((f.step r).run s).1.2 = f := step_eq_of_ne_configured (fun h => hr h.symm)
    rw [hf] at hrs
    rw [after_cons, hf]
    exact ih hrs

/-- A formatter that is bound stays the one it is. -/
theorem after_eq_of_bound (hb : f.bound = some b) (rs : List Request) (s : σ) :
    (f.after s rs).1 = f := by
  induction rs generalizing s with
  | nil => rfl
  | cons r rs ih => rw [after_cons, step_eq_of_bound hb, ih]

theorem answers_take (f : Formatter (StateM σ) H ε) (rs : List Request) (s : σ) (k : Nat) :
    f.answers s (rs.take k) = (f.answers s rs).take k := by
  induction rs generalizing f s k with
  | nil => rw [List.take_nil]; exact List.take_nil.symm
  | cons r rs ih =>
    cases k with
    | zero => rfl
    | succ k => rw [List.take_succ_cons, answers_cons, answers_cons, List.take_succ_cons, ih]

theorem answers_drop (f : Formatter (StateM σ) H ε) (rs : List Request) (s : σ) (k : Nat) :
    (f.answers s rs).drop k =
      (f.after s (rs.take k)).1.answers (f.after s (rs.take k)).2 (rs.drop k) := by
  induction rs generalizing f s k with
  | nil => rw [List.take_nil, List.drop_nil]; exact List.drop_nil
  | cons r rs ih =>
    cases k with
    | zero => rfl
    | succ k => rw [List.take_succ_cons, answers_cons, after_cons, List.drop_succ_cons,
        List.drop_succ_cons, ih]

/-- The answer in a place is what the formatter does in that place. -/
theorem getElem?_answers (f : Formatter (StateM σ) H ε) {rs : List Request} {k : Nat} {r : Request}
    (hr : rs[k]? = some r) (s : σ) :
    (f.answers s rs)[k]? =
      some (((f.after s (rs.take k)).1.step r).run (f.after s (rs.take k)).2).1.1 := by
  obtain ⟨hk, hr⟩ := List.getElem?_eq_some_iff.mp hr
  rw [← List.head?_drop, answers_drop, List.drop_eq_getElem_cons hk, hr, answers_cons,
    List.head?_cons]

theorem after_take_succ (f : Formatter (StateM σ) H ε) {rs : List Request} {k : Nat} {r : Request}
    (hr : rs[k]? = some r) (s : σ) :
    f.after s (rs.take (k + 1)) =
      ((((f.after s (rs.take k)).1.step r).run (f.after s (rs.take k)).2).1.2,
        (((f.after s (rs.take k)).1.step r).run (f.after s (rs.take k)).2).2) := by
  rw [List.take_add_one, hr, after_append]
  rfl

/-! ### The whole life -/

/-- A formatter that is not configured yet. -/
def fresh (engine : Engine (StateM σ) H ε) (resolver : Resolver ε) :
    Formatter (StateM σ) H ε where
  engine := engine
  resolver := resolver

/-- **The life of a formatter** through the requests `rs`, for an engine in the state `s` at first.
Where `.ok .configured` is not among the first `k` answers, none of the first `k` requests has
configured it. -/
structure LifeCycle (f : Formatter (StateM σ) H ε) (s : σ) (rs : List Request) : Prop where
  /-- Every request is answered. -/
  answered : (f.answers s rs).length = rs.length
  /-- Until the formatter is configured a query is refused, by the name of the method. -/
  refused : ∀ k q, .ok .configured ∉ (f.answers s rs).take k →
    rs[k]? = some (.ask q) → (f.answers s rs)[k]? = some q.refusal
  /-- Until the formatter is configured it answers all that is to come as a new one would, over the
  engine as that is by then. -/
  asNew : ∀ k, .ok .configured ∉ (f.answers s rs).take k →
    (f.answers s rs).drop k = f.answers (f.after s (rs.take k)).2 (rs.drop k)
  /-- What fails before the engine is asked fails with its reason, and leaves the engine alone. -/
  notNegotiated : ∀ k requested options e, .ok .configured ∉ (f.answers s rs).take k →
    rs[k]? = some (.configure requested options) →
    negotiate f.resolver requested options = .error e →
    (f.answers s rs)[k]? = some (.error e) ∧
      (f.after s (rs.take (k + 1))).2 = (f.after s (rs.take k)).2
  /-- What fails in the engine fails with the engine's reason. -/
  notBuilt : ∀ k requested options config negotiated e t,
    .ok .configured ∉ (f.answers s rs).take k →
    rs[k]? = some (.configure requested options) →
    negotiate f.resolver requested options = .ok (config, negotiated) →
    (f.engine.build negotiated.fullTag config
      ⟨negotiated.fullTag, negotiated.numberingSystem.getD ""⟩).run.run (f.after s (rs.take k)).2
        = (.error e, t) →
    (f.answers s rs)[k]? = some (.error (.engine e)) ∧ (f.after s (rs.take (k + 1))).2 = t
  /-- A request to configure that has failed, and has not changed the engine, may as well not have
  been made. -/
  withoutFailed : ∀ k requested options, .ok .configured ∉ (f.answers s rs).take (k + 1) →
    rs[k]? = some (.configure requested options) →
    (f.after s (rs.take (k + 1))).2 = (f.after s (rs.take k)).2 →
    f.answers s (rs.eraseIdx k) = (f.answers s rs).eraseIdx k
  /-- The first request that configures the formatter binds it, once and for all. -/
  bound : ∀ i, .ok .configured ∉ (f.answers s rs).take i →
    (f.answers s rs)[i]? = some (.ok .configured) →
    ∃ requested options b, rs[i]? = some (.configure requested options) ∧
      Binds f.engine f.resolver requested options (f.after s (rs.take i)).2
        (f.after s (rs.take (i + 1))).2 b ∧
      ∀ k, i < k →
        (f.after s (rs.take k)).1 = { f with bound := some b } ∧
        (∀ requested options, rs[k]? = some (.configure requested options) →
          (f.answers s rs)[k]? = some (.error .alreadyConfigured)) ∧
        (rs[k]? = some (.ask .resolvedOptions) →
          (f.answers s rs)[k]? = some (.ok (.resolved b.resolved))) ∧
        (rs[k]? = some (.ask .config) →
          (f.answers s rs)[k]? = some (.ok (.config (some b.config)))) ∧
        (rs[k]? = some (.ask .isConfigured) →
          (f.answers s rs)[k]? = some (.ok (.state true)))

/-- What a formatter that is not bound is prepared to be bound to. -/
theorem binds_of_prepare (hf : f.bound = none) {requested : Locales} {options : Options}
    (h : (f.prepare requested options).run.run s = (.ok b, t)) :
    Binds f.engine f.resolver requested options s t b := by
  rw [prepare_of_not_bound hf] at h
  rcases hn : negotiate f.resolver requested options with e | ⟨config, negotiated⟩
  · rw [hn] at h
    cases h
  · rw [hn] at h
    simp only [StateT.run_map] at h
    rcases hb : (f.engine.build negotiated.fullTag config
      ⟨negotiated.fullTag, negotiated.numberingSystem.getD ""⟩).run.run s
      with ⟨_ | ⟨handle, reported⟩, u⟩
    · rw [hb] at h
      cases h
    · rw [hb] at h
      cases h
      exact ⟨(of_negotiate hn).1, ⟨negotiated, reported, hn, hb, rfl, rfl⟩, rfl, rfl, rfl, rfl,
        rfl⟩

/-- Only a request to configure that prepares a binding configures a formatter. -/
theorem bound_of_configured {r : Request} (h : ((f.step r).run s).1.1 = .ok .configured) :
    ∃ requested options b t, r = .configure requested options ∧
      (f.prepare requested options).run.run s = (.ok b, t) ∧
      (f.step r).run s = ((.ok .configured, { f with bound := some b }), t) := by
  cases r with
  | ask q => exact absurd h (answer_ne_configured f q s)
  | configure requested options =>
    rw [step_configure] at h
    rcases hp : (f.prepare requested options).run.run s with ⟨e | b, t⟩
    · rw [hp] at h
      cases h
    · exact ⟨requested, options, b, t, rfl, hp, by rw [step_configure, hp]⟩

/-- Once bound, a formatter is the one it was when it was bound. -/
theorem after_take_of_bound {rs : List Request} {i k : Nat} (hik : i ≤ k)
    (hb : (f.after s (rs.take i)).1.bound = some b) :
    (f.after s (rs.take k)).1 = (f.after s (rs.take i)).1 := by
  have hsplit : rs.take k = rs.take i ++ (rs.take k).drop i := by
    conv => lhs; rw [← List.take_append_drop i (rs.take k)]
    rw [List.take_take, Nat.min_eq_left hik]
  rw [hsplit, after_append]
  exact after_eq_of_bound hb _ _

/-- What a formatter answers in a place where it is bound. -/
theorem getElem?_answers_of_bound {rs : List Request} {k : Nat}
    (hb : (f.after s (rs.take k)).1.bound = some b) :
    (∀ requested options, rs[k]? = some (.configure requested options) →
      (f.answers s rs)[k]? = some (.error .alreadyConfigured)) ∧
    (rs[k]? = some (.ask .resolvedOptions) →
      (f.answers s rs)[k]? = some (.ok (.resolved b.resolved))) ∧
    (rs[k]? = some (.ask .config) →
      (f.answers s rs)[k]? = some (.ok (.config (some b.config)))) ∧
    (rs[k]? = some (.ask .isConfigured) →
      (f.answers s rs)[k]? = some (.ok (.state true))) := by
  refine ⟨?_, ?_, ?_, ?_⟩
  · intro requested options hr
    rw [getElem?_answers f hr, step_of_prepare_error (prepare_of_bound hb requested options)]
  · intro hr
    rw [getElem?_answers f hr, step_ask, answer_resolvedOptions_of_bound hb]
  · intro hr
    rw [getElem?_answers f hr, step_ask, answer_config_of_bound hb]
  · intro hr
    rw [getElem?_answers f hr, step_ask, answer_isConfigured_of_bound hb]

theorem lifeCycle (engine : Engine (StateM σ) H ε) (resolver : Resolver ε) (s : σ)
    (rs : List Request) : LifeCycle (fresh engine resolver) s rs := by
  have hfresh : (fresh engine resolver : Formatter (StateM σ) H ε).bound = Option.none := rfl
  generalize fresh engine resolver = f at hfresh
  -- The invariant of all that comes before the formatter is configured.
  have hsame : ∀ k, .ok .configured ∉ (f.answers s rs).take k →
      (f.after s (rs.take k)).1 = f := by
    intro k hk
    rw [← answers_take] at hk
    exact after_eq_of_not_configured hk
  refine ⟨length_answers f rs s, ?_, ?_, ?_, ?_, ?_, ?_⟩
  · intro k q hk hq
    rw [getElem?_answers f hq, hsame k hk, step_ask, answer_of_not_bound hfresh]
  · intro k hk
    rw [answers_drop, hsame k hk]
  · intro k requested options e hk hr he
    have hp : (f.prepare requested options).run = pure (.error e) := by
      rw [prepare_of_not_bound hfresh, he]
    rw [getElem?_answers f hr, after_take_succ f hr, hsame k hk, step_of_prepare_error hp]
    exact ⟨rfl, rfl⟩
  · intro k requested options config negotiated e t hk hr hn he
    have hp : (f.step (.configure requested options)).run (f.after s (rs.take k)).2 =
        ((.error (.engine e), f), t) := by
      rw [step_configure, prepare_of_not_bound hfresh, hn]
      simp only [StateT.run_map]
      rw [he]
      rfl
    rw [getElem?_answers f hr, after_take_succ f hr, hsame k hk, hp]
    exact ⟨rfl, rfl⟩
  · intro k requested options hk hr hs
    have hk' : .ok .configured ∉ (f.answers s rs).take k :=
      fun h => hk (List.take_subset_take_left _ (by omega) h)
    rw [List.eraseIdx_eq_take_drop_succ, List.eraseIdx_eq_take_drop_succ, answers_append,
      answers_take, answers_drop, hsame k hk', hsame (k + 1) hk, hs]
  · intro i hi ha
    obtain ⟨hlt, -⟩ := List.getElem?_eq_some_iff.mp ha
    rw [length_answers] at hlt
    have hr : rs[i]? = some rs[i] := List.getElem?_eq_getElem hlt
    rw [getElem?_answers f hr, hsame i hi] at ha
    obtain ⟨requested, options, b, t, hreq, hp, hstep⟩ := bound_of_configured (Option.some.inj ha)
    have hnext : f.after s (rs.take (i + 1)) = ({ f with bound := some b }, t) := by
      rw [after_take_succ f hr, hsame i hi, hstep]
    have hbound : (f.after s (rs.take (i + 1))).1.bound = some b := by rw [hnext]
    refine ⟨requested, options, b, by rw [hr, hreq], ?_, ?_⟩
    · rw [hnext]
      exact binds_of_prepare hfresh hp
    · intro k hk
      have hlater := after_take_of_bound (Nat.succ_le_of_lt hk) hbound
      refine ⟨by rw [hlater, hnext], getElem?_answers_of_bound ?_⟩
      rw [hlater, hbound]

end Formatter

end Numeral
