/-!
# Outcomes of checks in a row

A row of checks succeeds exactly when each of them does, one after the other, and fails with the
first fault that is found.  Changing the error of a check changes no success.  Steps that also have
a state hand it on, and stop where one of them fails.
-/

namespace Numeral

variable {ε ε' α β : Type}

theorem bind_eq_ok_iff {x : Except ε α} {f : α → Except ε β} {b : β} :
    (x >>= f) = .ok b ↔ ∃ a, x = .ok a ∧ f a = .ok b := by
  cases x with
  | error e => simp [bind, Except.bind]
  | ok a => simp [bind, Except.bind]

theorem pure_eq_ok_iff {a b : α} : (pure a : Except ε α) = .ok b ↔ a = b := by
  simp [pure, Except.pure]

theorem mapError_eq_ok_iff {x : Except ε α} {f : ε → ε'} {a : α} :
    x.mapError f = .ok a ↔ x = .ok a := by
  cases x with
  | error e =>
    constructor
    · intro h
      cases h
    · intro h
      cases h
  | ok b =>
    constructor
    · intro h
      cases h
      rfl
    · intro h
      cases h
      rfl

theorem map_eq_ok_iff {x : Except ε α} {f : α → β} {b : β} :
    x.map f = .ok b ↔ ∃ a, x = .ok a ∧ f a = b := by
  cases x <;> simp [Except.map]

theorem ok_of_toOption {x : Except ε α} {a : α} (h : x.toOption = some a) : x = .ok a := by
  cases x with
  | error e => cases h
  | ok b => exact congrArg Except.ok (Option.some.inj h)

theorem mapM_eq_some_of_mapM {α β ε : Type} {read : α → Except ε β} {read? : α → Option β}
    (hRead : ∀ a b, read a = .ok b → read? a = some b) {as : List α} {bs : List β}
    (h : as.mapM read = Except.ok bs) : as.mapM read? = some bs := by
  induction as generalizing bs with
  | nil =>
    rw [List.mapM_nil] at h
    rw [← pure_eq_ok_iff.mp h]
    rfl
  | cons a as ih =>
    rw [List.mapM_cons] at h
    obtain ⟨b, hb, h⟩ := bind_eq_ok_iff.mp h
    obtain ⟨bs', hbs, h⟩ := bind_eq_ok_iff.mp h
    rw [← pure_eq_ok_iff.mp h, List.mapM_cons, hRead a b hb, ih hbs]
    rfl

/-! ### What is wrong, if anything -/

/-- The outcome of a check: the fault if there is one, and else the value. -/
def outcome (fault : Option ε) (a : α) : Except ε α := fault.elim (.ok a) .error

theorem outcome_eq_ok_iff {fault : Option ε} {a b : α} :
    outcome fault a = .ok b ↔ fault = none ∧ a = b := by
  cases fault with
  | none => simp [outcome]
  | some e => simp [outcome]

/-- Of two checks in a row the first fault is reported. -/
theorem outcome_bind {fault fault' : Option ε} {a : α} {b : β} {f : α → Except ε β}
    (h : f a = outcome fault' b) : (outcome fault a >>= f) = outcome (fault.or fault') b := by
  cases fault with
  | none => exact h
  | some e => rfl

theorem outcome_bind_ok {fault : Option ε} {a : α} {b : β} {f : α → Except ε β} (h : f a = .ok b) :
    (outcome fault a >>= f) = outcome fault b := by
  cases fault with
  | none => exact h
  | some e => rfl

theorem findSome?_cons_eq_or (fault : α → Option ε) (a : α) (as : List α) :
    (a :: as).findSome? fault = (fault a).or (as.findSome? fault) := by
  rw [List.findSome?_cons]
  cases fault a with
  | none => rfl
  | some e => rfl

/-- Steps in a row that fail with the faults of their arguments fail with the first of them, and
else come to where the steps lead. -/
theorem foldlM_eq_outcome {step : β → α → Except ε β} {fault : α → Option ε} {next : β → α → β}
    (hStep : ∀ b a, step b a = outcome (fault a) (next b a)) (as : List α) (b : β) :
    as.foldlM step b = outcome (as.findSome? fault) (as.foldl next b) := by
  induction as generalizing b with
  | nil => rfl
  | cons a as ih =>
    rw [List.foldlM_cons, hStep, findSome?_cons_eq_or]
    exact outcome_bind (ih (next b a))

/-! ### What is wrong, whatever the value -/

/-- The fault of a check that fails. -/
def faultOf : Except ε α → Option ε
  | .error e => some e
  | .ok _ => none

theorem faultOf_eq_some_iff {x : Except ε α} {e : ε} : faultOf x = some e ↔ x = .error e := by
  cases x with
  | error e' => simp [faultOf]
  | ok a => simp [faultOf]

theorem faultOf_eq_none_iff {x : Except ε α} : faultOf x = none ↔ ∃ a, x = .ok a := by
  cases x with
  | error e => simp [faultOf]
  | ok a => simp [faultOf]

/-- A check whose fault does not depend on what was found before it reports that fault unless there
is an earlier one. -/
theorem faultOf_bind {x : Except ε α} {f : α → Except ε β} {fault fault' : Option ε}
    (hx : faultOf x = fault) (hf : ∀ a, faultOf (f a) = fault') :
    faultOf (x >>= f) = fault.or fault' := by
  cases x with
  | error e =>
    rw [← hx]
    rfl
  | ok a =>
    rw [← hx]
    exact hf a

theorem faultOf_foldlM {step : β → α → Except ε β} {fault : α → Option ε}
    (hStep : ∀ b a, faultOf (step b a) = fault a) (as : List α) (b : β) :
    faultOf (as.foldlM step b) = as.findSome? fault := by
  induction as generalizing b with
  | nil => rfl
  | cons a as ih =>
    rw [List.foldlM_cons, findSome?_cons_eq_or]
    exact faultOf_bind (hStep b a) ih

theorem faultOf_mapM {read : α → Except ε β} {fault : α → Option ε}
    (hRead : ∀ a, faultOf (read a) = fault a) (as : List α) :
    faultOf (as.mapM read) = as.findSome? fault := by
  induction as with
  | nil => rfl
  | cons a as ih =>
    rw [List.mapM_cons, findSome?_cons_eq_or]
    apply faultOf_bind (hRead a)
    intro b
    rw [← (as.findSome? fault).or_none]
    apply faultOf_bind ih
    intro bs
    rfl

/-! ### Steps with a state -/

variable {σ : Type}

theorem run_bind (x : ExceptT ε (StateM σ) α) (k : α → ExceptT ε (StateM σ) β) (s : σ) :
    (x >>= k).run.run s =
      match x.run.run s with
      | (.ok a, t) => (k a).run.run t
      | (.error e, t) => (.error e, t) := by
  rw [ExceptT.run_bind, StateT.run_bind]
  show (match x.run.run s with | (a, t) => _) = _
  rcases x.run.run s with ⟨_ | a, t⟩
  · rfl
  · rfl

end Numeral
