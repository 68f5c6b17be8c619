import Numeral.Proofs.Formatter.Calls
import Numeral.Proofs.Locale.Canonicalization
import Numeral.Proofs.Options.Faults

/-!
# What is checked before the resolver and the engine

A request to configure is checked in one order: the matcher, the requested tags from the first to
the last, and the other options.  The first fault is the answer, and neither the resolver nor the
engine is asked then.  Over a locale database there is such an error exactly when there is a fault
(`configure_screened`).
-/

namespace Numeral

/-- Requested tags are brought into canonical form unless one of them is malformed. -/
theorem exists_canonicalize_eq (requested : Locales) :
    ∃ tags, canonicalize requested = outcome (firstFault (requested.map malformed?)) tags := by
  rw [canonicalize_eq, firstFault, List.findSome?_map]
  exact ⟨_, rfl⟩

/-- The error says that the request is at fault. -/
def FormatError.IsFault {ε : Type} (e : FormatError ε) : Prop :=
  e.isValidation = true ∨ ∃ text, e = .tag text

namespace Formatter

variable {σ H ε : Type} {resolver : Resolver ε} {requested : Locales} {options : Options}

/-- The checks of a request to configure, in their order. -/
def faults (ε : Type) (requested : Locales) (options : Options) :
    List (Option (FormatError ε)) :=
  (options.fault? .localeMatcher).map .option ::
    (requested.map fun text => (malformed? text).map .tag) ++
      options.laterFaults.map (Option.map .option)

theorem firstFault_faults (requested : Locales) (options : Options) :
    firstFault (faults ε requested options) =
      ((options.fault? .localeMatcher).map .option).or
        (((firstFault (requested.map malformed?)).map .tag).or
          ((firstFault options.laterFaults).map .option)) := by
  have hTags : (requested.map fun text => (malformed? text).map FormatError.tag) =
      (requested.map malformed?).map (Option.map (FormatError.tag (ε := ε))) := by
    rw [List.map_map]
    rfl
  rw [faults, List.cons_append, firstFault_cons, firstFault_append, hTags, firstFault_map,
    firstFault_map]

/-- The resolver is asked if nothing is at fault, for what the options ask for. -/
theorem negotiate_eq (resolver : Resolver ε) (requested : Locales) (options : Options) :
    negotiate resolver requested options =
      match firstFault (faults ε requested options) with
      | some e => .error e
      | none => (resolver requested options.asked.extensions options.asked.localeMatcher).map
          fun negotiated => (options.asked, negotiated) := by
  obtain ⟨tags, hTags⟩ := exists_canonicalize_eq requested
  have hValidate := options.validate_eq
  rw [Options.faults, firstFault_cons] at hValidate
  rw [negotiate, options.localeMatcher_eq, hTags, hValidate, firstFault_faults]
  cases options.fault? .localeMatcher with
  | some e => rfl
  | none =>
    cases firstFault (requested.map malformed?) with
    | some text => rfl
    | none =>
      cases firstFault options.laterFaults with
      | some e => rfl
      | none =>
        show (resolver requested options.asked.extensions options.asked.localeMatcher >>= _) = _
        cases resolver requested options.asked.extensions options.asked.localeMatcher with
        | error e => rfl
        | ok negotiated => rfl

/-- Without a fault the resolver over a database has an answer. -/
theorem exists_negotiate_eq (db : Database)
    (h : firstFault (faults ε requested options) = none) :
    ∃ negotiated,
      negotiate (db.resolver ε) requested options = .ok (options.asked, negotiated) := by
  have hText : firstFault (requested.map malformed?) = none := by
    rw [firstFault_faults, Option.or_eq_none_iff, Option.or_eq_none_iff] at h
    exact Option.map_eq_none_iff.mp h.2.1
  obtain ⟨tags, hTags⟩ := exists_canonicalize_eq requested
  rw [hText] at hTags
  rw [negotiate_eq, h, Database.resolver, Database.resolve, hTags]
  exact ⟨_, rfl⟩

theorem isFault_of_mem_faults {e : FormatError ε} (h : some e ∈ faults ε requested options) :
    e.IsFault := by
  rcases List.mem_append.mp h with h | h
  · rcases List.mem_cons.mp h with h | h
    · obtain ⟨e', -, rfl⟩ := Option.map_eq_some_iff.mp h.symm
      exact .inl rfl
    · obtain ⟨text, -, h⟩ := List.mem_map.mp h
      obtain ⟨text', -, rfl⟩ := Option.map_eq_some_iff.mp h
      exact .inr ⟨text', rfl⟩
  · obtain ⟨fault, -, h⟩ := List.mem_map.mp h
    obtain ⟨e', -, rfl⟩ := Option.map_eq_some_iff.mp h
    exact .inl rfl

theorem configure_of_firstFault {e : FormatError ε}
    (h : firstFault (faults ε requested options) = some e) (engine : Engine (StateM σ) H ε)
    (resolver : Resolver ε) (s : σ) :
    ((fresh engine resolver).configure requested options).run.run s = (.error e, s) ∧
      (fresh engine resolver).record s [.configure requested options] = [] := by
  have hNegotiate : negotiate (fresh engine resolver).resolver requested options = .error e := by
    rw [negotiate_eq, h]
  constructor
  · rw [configure_run, prepare_of_not_bound rfl, hNegotiate]
    rfl
  · rw [record_cons, demand, hNegotiate]
    rfl

/-- Without a fault only the engine fails. -/
theorem engine_of_firstFault_eq_none {e : FormatError ε} (db : Database)
    (engine : Engine (StateM σ) H ε) (s : σ)
    (h : firstFault (faults ε requested options) = none)
    (he : (((fresh engine (db.resolver ε)).configure requested options).run.run s).1 = .error e) :
    ∃ e', e = .engine e' := by
  obtain ⟨negotiated, hNegotiate⟩ := exists_negotiate_eq db h
  have hNegotiate : negotiate (fresh engine (db.resolver ε)).resolver requested options =
    .ok (options.asked, negotiated) := hNegotiate
  rw [configure_run, prepare_of_not_bound rfl, hNegotiate, StateT.run_map] at he
  simp only [StateT.run_map] at he
  rcases hb : ((fresh engine (db.resolver ε)).engine.build negotiated.fullTag options.asked
    ⟨negotiated.fullTag, negotiated.numberingSystem.getD ""⟩).run.run s
    with ⟨e' | made, t⟩
  · rw [hb] at he
    exact ⟨e', (Except.error.inj he).symm⟩
  · rw [hb] at he
    cases he

/-- **A request to configure is answered by its first fault** before anything else is asked.  Over
a locale database an answer says that the request is at fault exactly when there is a fault. -/
theorem configure_screened (db : Database) (engine : Engine (StateM σ) H ε) (s : σ)
    (requested : Locales) (options : Options) :
    (∀ e, firstFault (faults ε requested options) = some e → ∀ resolver,
      ((fresh engine resolver).configure requested options).run.run s = (.error e, s) ∧
        (fresh engine resolver).record s [.configure requested options] = []) ∧
    ((∃ e, (((fresh engine (db.resolver ε)).configure requested options).run.run s).1 = .error e ∧
        e.IsFault) ↔
      ∃ fault ∈ faults ε requested options, fault.isSome = true) := by
  refine ⟨fun e h resolver => configure_of_firstFault h engine resolver s, ?_⟩
  cases h : firstFault (faults ε requested options) with
  | none =>
    have hNone := firstFault_eq_none_iff.mp h
    constructor
    · rintro ⟨e, he, hFault⟩
      obtain ⟨e', rfl⟩ := engine_of_firstFault_eq_none db engine s h he
      rcases hFault with hFault | ⟨text, hFault⟩
      · cases hFault
      · cases hFault
    · rintro ⟨fault, hMem, hSome⟩
      rw [hNone fault hMem] at hSome
      cases hSome
  | some e =>
    have hMem := mem_of_firstFault h
    refine iff_of_true ⟨e, ?_, isFault_of_mem_faults hMem⟩ ⟨some e, hMem, rfl⟩
    rw [(configure_of_firstFault h engine (db.resolver ε) s).1]

end Formatter

end Numeral
