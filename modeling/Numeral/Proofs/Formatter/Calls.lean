import Numeral.Engine.Log
import Numeral.Proofs.Formatter.Demand
import Numeral.Proofs.Formatter.LifeCycle

/-!
# The calls of an engine

A formatter keeps to an order in what it asks of its engine.  Calls to prepare may fail; once one of
them has succeeded there is none after it, and only then is the engine asked to write and to read,
with what it has prepared.  Requests that are refused make no call, and the others hand on what came
of the one call that they make.

The calls are those that the engine of a record receives (`Engine.logged`).  `step_logged` says what
a step adds to the record and `run_logged` that a row of steps is the same with and without it.  The
order of the calls is kept by every step (`orderly_step`) and so by every row of steps;
`callDiscipline` has all of it.
-/

namespace Numeral

variable {σ H ε : Type}

namespace Call

/-- The call is one to prepare, and has failed. -/
def IsFailedBuild (c : Call H ε) : Prop :=
  ∃ tag config given e, c = .build tag config given (.error e)

/-- The call is one to write or to read with what the engine has prepared. -/
def Uses (handle : H) (c : Call H ε) : Prop :=
  (∃ x came, c = .format handle x came) ∨ ∃ text came, c = .parse handle text came

/-- What came of the call, as an answer. -/
def answer : Call H ε → Except (FormatError ε) Answer
  | build _ _ _ came => (came.map fun _ => .configured).mapError .engine
  | format _ _ came => (came.map .text).mapError .engine
  | parse _ _ came => (came.map .number).mapError .engine

end Call

/-- The call is for the number or the text that the query is about. -/
def Query.Makes (q : Query) (c : Call H ε) : Prop :=
  (∃ x handle came, q.number? = some x ∧ c = .format handle x.unsignedZero came) ∨
    ∃ text handle came, q.text? = some text ∧ c = .parse handle text came

namespace Formatter

/-- The formatter with a record of the calls that its engine receives. -/
def logged (f : Formatter (StateM σ) H ε) :
    Formatter (StateT (List (Call H ε)) (StateM σ)) H ε where
  engine := f.engine.logged
  resolver := f.resolver
  bound := f.bound

/-- The calls that requests one after the other lead to, for an engine in the state `s` at first. -/
def record (f : Formatter (StateM σ) H ε) (s : σ) (rs : List Request) : List (Call H ε) :=
  (((f.logged.run rs).run []).run s).1.2

/-- The calls that serving a demand leads to, for an engine in the state `s`. -/
def callsFor (f : Formatter (StateM σ) H ε) (s : σ) : Demand H ε → List (Call H ε)
  | .nothing _ => []
  | .build config negotiated =>
    [.build negotiated.fullTag config ⟨negotiated.fullTag, negotiated.numberingSystem.getD ""⟩
      ((f.engine.build negotiated.fullTag config
        ⟨negotiated.fullTag, negotiated.numberingSystem.getD ""⟩).run.run s).1]
  | .format handle x => [.format handle x ((f.engine.format handle x).run.run s).1]
  | .parse handle text => [.parse handle text ((f.engine.parse handle text).run.run s).1]

variable {f : Formatter (StateM σ) H ε} {s : σ} {b : Bound H}

theorem demand_logged (f : Formatter (StateM σ) H ε) (r : Request) :
    f.logged.demand r = f.demand r := by
  cases r with
  | configure requested options => rfl
  | ask q => cases q <;> rfl

theorem settle_logged (f : Formatter (StateM σ) H ε) (config : Config)
    (built : Except ε (H × Reported)) :
    f.logged.settle config built =
      ((f.settle config built).1, (f.settle config built).2.logged) := by
  rcases built with e | ⟨handle, reported⟩
  · rfl
  · rfl

/-- A step does the same with a record, and adds the calls for its demand to it. -/
theorem step_logged (f : Formatter (StateM σ) H ε) (r : Request) (log : List (Call H ε)) (s : σ) :
    ((f.logged.step r).run log).run s =
      (((((f.step r).run s).1.1, ((f.step r).run s).1.2.logged),
        log ++ f.callsFor s (f.demand r)), ((f.step r).run s).2) := by
  rw [step_eq_serve, step_eq_serve, demand_logged]
  cases f.demand r with
  | nothing a =>
    rw [callsFor, List.append_nil]
    rfl
  | build config negotiated =>
    rw [serve, serve, funext (settle_logged f config)]
    rfl
  | format handle x => rfl
  | parse handle text => rfl

/-- What a row of requests does with a record, from what its first one does. -/
theorem run_logged_cons (f : Formatter (StateM σ) H ε) (r : Request) (rs : List Request)
    (log : List (Call H ε)) (s : σ) {as : List (Except (FormatError ε) Answer)}
    {g : Formatter (StateT (List (Call H ε)) (StateM σ)) H ε} {calls : List (Call H ε)} {t : σ}
    (h : ((((f.step r).run s).1.2.logged.run rs).run (log ++ f.callsFor s (f.demand r))).run
      ((f.step r).run s).2 = (((as, g), calls), t)) :
    ((f.logged.run (r :: rs)).run log).run s = (((((f.step r).run s).1.1 :: as, g), calls), t) := by
  show (match ((f.logged.step r).run log).run s with
    | (((a, g), log), s) =>
      match ((g.run rs).run log).run s with
      | (((as, g), log), s) => (((a :: as, g), log), s)) = _
  rw [step_logged]
  simp only [h]

theorem exists_run_logged (f : Formatter (StateM σ) H ε) (rs : List Request) (s : σ) :
    ∃ calls, ∀ log, ((f.logged.run rs).run log).run s =
      (((f.answers s rs, (f.after s rs).1.logged), log ++ calls), (f.after s rs).2) := by
  induction rs generalizing f s with
  | nil =>
    refine ⟨[], fun log => ?_⟩
    rw [List.append_nil]
    rfl
  | cons r rs ih =>
    obtain ⟨calls, h⟩ := ih ((f.step r).run s).1.2 ((f.step r).run s).2
    refine ⟨f.callsFor s (f.demand r) ++ calls, fun log => ?_⟩
    rw [run_logged_cons f r rs log s (h _), List.append_assoc]
    rfl

/-- Requests have the same answers with a record, and add their calls to it. -/
theorem run_logged (f : Formatter (StateM σ) H ε) (rs : List Request) (log : List (Call H ε))
    (s : σ) :
    ((f.logged.run rs).run log).run s =
      (((f.answers s rs, (f.after s rs).1.logged), log ++ f.record s rs), (f.after s rs).2) := by
  obtain ⟨calls, h⟩ := f.exists_run_logged rs s
  have hRecord : f.record s rs = calls := by
    rw [record, h]
    rfl
  rw [h, hRecord]

theorem record_cons (f : Formatter (StateM σ) H ε) (r : Request) (rs : List Request) (s : σ) :
    f.record s (r :: rs) = f.callsFor s (f.demand r) ++
      ((f.step r).run s).1.2.record ((f.step r).run s).2 rs := by
  rw [record, run_logged_cons f r rs [] s (run_logged _ _ _ _)]
  rfl

theorem record_append (f : Formatter (StateM σ) H ε) (rs rs' : List Request) (s : σ) :
    f.record s (rs ++ rs') =
      f.record s rs ++ (f.after s rs).1.record (f.after s rs).2 rs' := by
  induction rs generalizing f s with
  | nil => rfl
  | cons r rs ih => rw [List.cons_append, record_cons, record_cons, ih, after_cons,
      List.append_assoc]

/-- What a request in a place adds to the record. -/
theorem record_take_succ (f : Formatter (StateM σ) H ε) {rs : List Request} {k : Nat} {r : Request}
    (hr : rs[k]? = some r) (s : σ) :
    f.record s (rs.take (k + 1)) = f.record s (rs.take k) ++
      (f.after s (rs.take k)).1.callsFor (f.after s (rs.take k)).2
        ((f.after s (rs.take k)).1.demand r) := by
  rw [List.take_add_one, hr, record_append]
  show _ ++ record _ _ [r] = _
  rw [record_cons]
  exact congrArg _ (List.append_nil _)

/-! ### The order of the calls -/

/-- The calls of a formatter are in order: those to prepare fail until one of them succeeds, and all
that come after it use what it has prepared, which the formatter is bound to. -/
inductive Orderly : Option (Bound H) → List (Call H ε) → Prop where
  /-- The formatter is not bound yet. -/
  | unbound {calls : List (Call H ε)} : (∀ c ∈ calls, c.IsFailedBuild) → Orderly none calls
  /-- The formatter is bound. -/
  | bound {failed uses : List (Call H ε)} {tag : String} {given reported : Reported} {b : Bound H} :
      (∀ c ∈ failed, c.IsFailedBuild) → (∀ c ∈ uses, c.Uses b.handle) →
      Orderly (some b) (failed ++ .build tag b.config given (.ok (b.handle, reported)) :: uses)

theorem Orderly.append_use {calls : List (Call H ε)} {c : Call H ε} (h : Orderly (some b) calls)
    (hc : c.Uses b.handle) : Orderly (some b) (calls ++ [c]) := by
  cases h with
  | bound hFailed hUses =>
    rw [List.append_assoc, List.cons_append]
    refine .bound hFailed ?_
    intro c' hc'
    rcases List.mem_append.mp hc' with hc' | hc'
    · exact hUses c' hc'
    · rwa [List.mem_singleton.mp hc']

/-- A call to prepare that has succeeded is the one that has bound the formatter. -/
theorem Orderly.exists_bound {b? : Option (Bound H)} {calls : List (Call H ε)}
    (h : Orderly b? calls) {tag : String} {config : Config} {given : Reported} {made : H × Reported}
    (hMem : .build tag config given (.ok made) ∈ calls) : ∃ b, b? = some b ∧ b.config = config := by
  have hNotFailed : ¬ (Call.build tag config given (.ok made) : Call H ε).IsFailedBuild := by
    rintro ⟨_, _, _, e, he⟩
    cases he
  cases h with
  | unbound hFailed => exact absurd (hFailed _ hMem) hNotFailed
  | bound hFailed hUses =>
    rcases List.mem_append.mp hMem with hMem | hMem
    · exact absurd (hFailed _ hMem) hNotFailed
    · rcases List.mem_cons.mp hMem with hMem | hMem
      · obtain ⟨-, hConfig, -⟩ := Call.build.inj hMem
        exact ⟨_, rfl, hConfig.symm⟩
      · rcases hUses _ hMem with ⟨x, came, hUse⟩ | ⟨text, came, hUse⟩
        · cases hUse
        · cases hUse

/-- Every step keeps the calls in order. -/
theorem orderly_step {calls : List (Call H ε)} (h : Orderly f.bound calls) (r : Request) (s : σ) :
    Orderly ((f.step r).run s).1.2.bound (calls ++ f.callsFor s (f.demand r)) := by
  have hDemand := f.demands_demand r
  rw [step_eq_serve]
  generalize f.demand r = d at hDemand ⊢
  cases hDemand with
  | nothing =>
    rw [callsFor, List.append_nil]
    exact h
  | build hNone hn =>
    rename_i config negotiated
    rw [hNone] at h
    cases h with
    | unbound hFailed =>
      rw [serve, callsFor, StateT.run_map]
      rcases (f.engine.build negotiated.fullTag config
        ⟨negotiated.fullTag, negotiated.numberingSystem.getD ""⟩).run.run s
        with ⟨e | ⟨handle, reported⟩, t⟩
      · show Orderly f.bound _
        rw [hNone]
        refine .unbound ?_
        intro c hc
        rcases List.mem_append.mp hc with hc | hc
        · exact hFailed c hc
        · exact ⟨_, _, _, e, List.mem_singleton.mp hc⟩
      · exact .bound (b := ⟨handle, config, .ofConfig config reported⟩) hFailed (by simp)
  | format hb hx =>
    show Orderly f.bound _
    rw [hb] at h ⊢
    exact h.append_use (.inl ⟨_, _, rfl⟩)
  | parse hb hs =>
    show Orderly f.bound _
    rw [hb] at h ⊢
    exact h.append_use (.inr ⟨_, _, rfl⟩)

/-- Every row of steps keeps the calls in order. -/
theorem orderly_record {calls : List (Call H ε)} (h : Orderly f.bound calls) (rs : List Request)
    (s : σ) : Orderly (f.after s rs).1.bound (calls ++ f.record s rs) := by
  induction rs generalizing f s calls with
  | nil =>
    show Orderly f.bound (calls ++ [])
    rwa [List.append_nil]
  | cons r rs ih =>
    rw [after_cons, record_cons, ← List.append_assoc]
    exact ih (orderly_step h r s) _

theorem unsignedZero_ne_negativeZero (x : Binary64) : x.unsignedZero ≠ .finite true .zero := by
  rw [Binary64.unsignedZero]
  by_cases hx : x.isZero = true
  · rw [if_pos hx]
    simp [Binary64.zero]
  · rw [if_neg hx]
    rintro rfl
    exact hx rfl

/-- No number that is to be written is the negative zero. -/
theorem ne_negativeZero_of_mem_record {rs : List Request} {handle : H} {x : Binary64}
    {came : Except ε String} (h : .format handle x came ∈ f.record s rs) :
    x ≠ .finite true .zero := by
  induction rs generalizing f s with
  | nil => cases h
  | cons r rs ih =>
    rw [record_cons] at h
    rcases List.mem_append.mp h with h | h
    · have hDemand := f.demands_demand r
      generalize f.demand r = d at hDemand h
      cases hDemand with
      | nothing => cases h
      | build => simp [callsFor] at h
      | format =>
        obtain ⟨-, rfl, -⟩ := Call.format.inj (List.mem_singleton.mp h)
        exact unsignedZero_ne_negativeZero _
      | parse => simp [callsFor] at h
    · exact ih h

/-! ### One request in a row -/

/-- Serving a demand makes no call, or one call whose outcome is the answer. -/
theorem callsFor_cases (f : Formatter (StateM σ) H ε) (s : σ) (d : Demand H ε) :
    (∃ a, d = .nothing a) ∨
      ∃ c, f.callsFor s d = [c] ∧ ((f.serve d).run s).1.1 = c.answer := by
  cases d with
  | nothing a => exact .inl ⟨a, rfl⟩
  | build config negotiated =>
    right
    refine ⟨_, rfl, ?_⟩
    rw [serve, StateT.run_map]
    rcases (f.engine.build negotiated.fullTag config
      ⟨negotiated.fullTag, negotiated.numberingSystem.getD ""⟩).run.run s
      with ⟨e | ⟨handle, reported⟩, t⟩
    · rfl
    · rfl
  | format handle x => exact .inr ⟨_, rfl, rfl⟩
  | parse handle text => exact .inr ⟨_, rfl, rfl⟩

theorem engine_of_answer {c : Call H ε} {e : FormatError ε} (h : c.answer = .error e) :
    ∃ e', e = .engine e' := by
  have hMap : ∀ {α : Type} (tag : α → Answer) (came : Except ε α),
      (came.map tag).mapError .engine = .error e → ∃ e', e = .engine e' := by
    intro α tag came h
    rcases came with e' | a
    · exact ⟨e', (Except.error.inj h).symm⟩
    · cases h
  cases c with
  | build tag config given came => exact hMap _ came h
  | format handle x came => exact hMap _ came h
  | parse handle text came => exact hMap _ came h

/-- The calls of requests one after the other. -/
structure CallDiscipline (f : Formatter (StateM σ) H ε) (s : σ) (rs : List Request) : Prop where
  /-- Requests do the same with a record as without. -/
  recorded : ((f.logged.run rs).run []).run s =
    (((f.answers s rs, (f.after s rs).1.logged), f.record s rs), (f.after s rs).2)
  /-- No request makes more than one call. -/
  oneEach : ∀ k, ∃ call? : Option (Call H ε),
    f.record s (rs.take (k + 1)) = f.record s (rs.take k) ++ call?.toList
  /-- No call comes before one to prepare has succeeded but those to prepare that have failed, and
  all calls after it use what it has prepared. -/
  ordered : (∀ c ∈ f.record s rs, c.IsFailedBuild) ∨
    ∃ failed tag config given handle reported uses,
      f.record s rs = failed ++ .build tag config given (.ok (handle, reported)) :: uses ∧
        (∀ c ∈ failed, c.IsFailedBuild) ∧ ∀ c ∈ uses, c.Uses handle
  /-- The engine is asked to prepare for the checked options and the tag that is agreed on, and is
  given that tag and the numbering system. -/
  prepares : ∀ k tag config given came,
    f.record s (rs.take (k + 1)) = f.record s (rs.take k) ++ [.build tag config given came] →
    ∃ requested options negotiated, rs[k]? = some (.configure requested options) ∧
      options.validate = .ok config ∧
      f.resolver requested config.extensions config.localeMatcher = .ok negotiated ∧
      tag = negotiated.locale ++ negotiated.extension ∧
      given = ⟨tag, negotiated.numberingSystem.getD ""⟩
  /-- Once the engine has prepared for a configuration it is the one that is told. -/
  told : ∀ k tag config given made,
    .build tag config given (.ok made) ∈ f.record s (rs.take k) →
    rs[k]? = some (.ask .config) →
    (f.answers s rs)[k]? = some (.ok (.config (some config)))
  /-- No number that is to be written is the negative zero. -/
  unsigned : ∀ handle x came, .format handle x came ∈ f.record s rs → x ≠ .finite true .zero
  /-- A request that fails, and not by an error of the engine, makes no call. -/
  silent : ∀ k e, (f.answers s rs)[k]? = some (.error e) → (∀ e', e ≠ .engine e') →
    f.record s (rs.take (k + 1)) = f.record s (rs.take k)
  /-- Every other request to write or to read makes one call, and what came of it is the answer. -/
  single : ∀ k q a, rs[k]? = some (.ask q) → q.isUse = true → (f.answers s rs)[k]? = some a →
    (∀ e, a = .error e → ∃ e', e = .engine e') →
    ∃ c, f.record s (rs.take (k + 1)) = f.record s (rs.take k) ++ [c] ∧ q.Makes c ∧ a = c.answer

theorem resolver_step (f : Formatter (StateM σ) H ε) (r : Request) (s : σ) :
    ((f.step r).run s).1.2.resolver = f.resolver := by
  cases r with
  | ask q => rfl
  | configure requested options =>
    rw [step_configure]
    rcases (f.prepare requested options).run.run s with ⟨e | b, t⟩
    · rfl
    · rfl

theorem resolver_after (f : Formatter (StateM σ) H ε) (rs : List Request) (s : σ) :
    (f.after s rs).1.resolver = f.resolver := by
  induction rs generalizing f s with
  | nil => rfl
  | cons r rs ih => rw [after_cons, ih, resolver_step]

/-- What the request in a place is answered and adds to the record, by the formatter that is there
by then. -/
theorem exists_served (f : Formatter (StateM σ) H ε) {rs : List Request} {k : Nat} {r : Request}
    (hr : rs[k]? = some r) (s : σ) :
    ∃ (g : Formatter (StateM σ) H ε) (t : σ), g.resolver = f.resolver ∧
      (f.answers s rs)[k]? = some ((g.serve (g.demand r)).run t).1.1 ∧
      f.record s (rs.take (k + 1)) = f.record s (rs.take k) ++ g.callsFor t (g.demand r) :=
  ⟨(f.after s (rs.take k)).1, (f.after s (rs.take k)).2, resolver_after f _ s,
    by rw [getElem?_answers f hr, step_eq_serve], record_take_succ f hr s⟩

/-- A request that adds to the record is one of the row. -/
theorem exists_of_record_ne {rs : List Request} {k : Nat}
    (h : f.record s (rs.take (k + 1)) ≠ f.record s (rs.take k)) : ∃ r, rs[k]? = some r := by
  cases hr : rs[k]? with
  | some r => exact ⟨r, rfl⟩
  | none =>
    rw [List.take_add_one, hr, Option.toList_none, List.append_nil] at h
    exact absurd rfl h

/-- **An engine is called in good order** by every row of requests to a formatter. -/
theorem callDiscipline (engine : Engine (StateM σ) H ε) (resolver : Resolver ε) (s : σ)
    (rs : List Request) : CallDiscipline (fresh engine resolver) s rs := by
  have hOrderly : ∀ rs, Orderly ((fresh engine resolver).after s rs).1.bound
      ((fresh engine resolver).record s rs) :=
    fun rs => orderly_record (f := fresh engine resolver) (.unbound (List.forall_mem_nil _)) rs s
  generalize fresh engine resolver = f at hOrderly
  refine ⟨run_logged f rs [] s, ?_, ?_, ?_, ?_, ?_, ?_, ?_⟩
  · intro k
    cases hr : rs[k]? with
    | none =>
      refine ⟨none, ?_⟩
      rw [List.take_add_one, hr]
      simp
    | some r =>
      obtain ⟨g, t, -, -, hRecord⟩ := exists_served f hr s
      rw [hRecord]
      rcases callsFor_cases g t (g.demand r) with ⟨a, hd⟩ | ⟨c, hc, -⟩
      · exact ⟨none, by rw [hd]; rfl⟩
      · exact ⟨some c, by rw [hc]; rfl⟩
  · have h := hOrderly rs
    generalize (f.after s rs).1.bound = b?, f.record s rs = calls at h
    cases h with
    | unbound hFailed => exact .inl hFailed
    | bound hFailed hUses => exact .inr ⟨_, _, _, _, _, _, _, rfl, hFailed, hUses⟩
  · intro k tag config given came h
    obtain ⟨r, hr⟩ := exists_of_record_ne (by rw [h]; simp)
    obtain ⟨g, t, hResolver, -, hRecord⟩ := exists_served f hr s
    have hCall := List.append_cancel_left (hRecord.symm.trans h)
    have hDemand := g.demands_demand r
    generalize g.demand r = d at hDemand hCall
    cases hDemand with
    | nothing => cases hCall
    | build hNone hn =>
      obtain ⟨rfl, rfl, rfl, -⟩ := Call.build.inj (List.singleton_inj.mp hCall)
      rw [← hResolver]
      obtain ⟨hValidate, hNegotiated⟩ := of_negotiate hn
      exact ⟨_, _, _, hr, hValidate, hNegotiated, rfl, rfl⟩
    | format => cases hCall
    | parse => cases hCall
  · intro k tag config given made hMem hr
    obtain ⟨b, hb, rfl⟩ := (hOrderly (rs.take k)).exists_bound hMem
    obtain ⟨-, -, hTold, -⟩ := getElem?_answers_of_bound hb
    exact hTold hr
  · intro handle x came h
    exact ne_negativeZero_of_mem_record h
  · intro k e hAnswer hEngine
    obtain ⟨hk, -⟩ := List.getElem?_eq_some_iff.mp hAnswer
    rw [length_answers] at hk
    obtain ⟨g, t, -, hServed, hRecord⟩ := exists_served f (List.getElem?_eq_getElem hk) s
    have hError := Option.some.inj (hServed.symm.trans hAnswer)
    rw [hRecord]
    rcases callsFor_cases g t (g.demand rs[k]) with ⟨a, hd⟩ | ⟨c, -, hc⟩
    · rw [hd, callsFor, List.append_nil]
    · obtain ⟨e', he'⟩ := engine_of_answer (hc.symm.trans hError)
      exact absurd he' (hEngine e')
  · intro k q a hr hUse hAnswer hEngine
    obtain ⟨g, t, -, hServed, hRecord⟩ := exists_served f hr s
    have hAnswer := Option.some.inj (hServed.symm.trans hAnswer)
    have hDemand := g.demands_demand (.ask q)
    generalize g.demand (.ask q) = d at hDemand hAnswer hRecord
    cases hDemand with
    | nothing hRefused =>
      obtain ⟨e, he, hNot⟩ := hRefused q rfl hUse
      obtain ⟨e', he'⟩ := hEngine e (hAnswer.symm.trans he)
      exact absurd he' (hNot e')
    | format hb hx => exact ⟨_, hRecord, .inl ⟨_, _, _, hx, rfl⟩, hAnswer.symm⟩
    | parse hb hs => exact ⟨_, hRecord, .inr ⟨_, _, _, hs, rfl⟩, hAnswer.symm⟩

end Formatter

end Numeral
