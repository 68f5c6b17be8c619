import Numeral.Proofs.Locale.Faults

/-!
# Well-formed locale data

What a document of locale data has to be like, part by part and without an order of checks.  A
document is like that exactly when it has no fault (`faults_eq_nil_iff`), and whether it is can be
computed.
-/

namespace Numeral

open Toml (Table Value)

namespace Toml.Value

instance (v : Value) (p : String → Prop) [DecidablePred p] :
    Decidable (∃ s, v = .string s ∧ p s) :=
  decidable_of_iff (∃ s ∈ v.asString?, p s) (by simp only [Option.mem_def, asString?_eq_some_iff])

instance (v : Value) (p : List Value → Prop) [DecidablePred p] :
    Decidable (∃ vs, v = .array vs ∧ p vs) :=
  decidable_of_iff (∃ vs ∈ v.asArray?, p vs) (by simp only [Option.mem_def, asArray?_eq_some_iff])

instance (v : Value) (p : Table → Prop) [DecidablePred p] : Decidable (∃ t, v = .table t ∧ p t) :=
  decidable_of_iff (∃ t ∈ v.asTable?, p t) (by simp only [Option.mem_def, asTable?_eq_some_iff])

/-- The value is a text. -/
def IsText (v : Value) : Prop := ∃ s, v = .string s

instance (v : Value) : Decidable v.IsText :=
  decidable_of_iff (∃ s, v = .string s ∧ True) (by simp only [and_true, IsText])

end Toml.Value

/-! ### The parts of a document -/

namespace Settings

/-- What a field of the kind may hold. -/
def FieldKind.Admits : FieldKind → Value → Prop
  | .character, v => ∃ s, v = .string s ∧ s ≠ ""
  | .text, v => v.IsText
  | .numberingSystems, v => ∃ vs, v = .array vs ∧ vs ≠ [] ∧ ∀ w ∈ vs, w.IsText
  | .currencySymbols, v => ∃ t, v = .table t ∧ ∀ e ∈ t, e.2.IsText

instance : (kind : FieldKind) → DecidablePred kind.Admits
  | .character, v => inferInstanceAs (Decidable (∃ s, v = .string s ∧ s ≠ ""))
  | .text, v => inferInstanceAs (Decidable v.IsText)
  | .numberingSystems, v =>
    inferInstanceAs (Decidable (∃ vs, v = .array vs ∧ vs ≠ [] ∧ ∀ w ∈ vs, w.IsText))
  | .currencySymbols, v => inferInstanceAs (Decidable (∃ t, v = .table t ∧ ∀ e ∈ t, e.2.IsText))

/-- A table, each of whose fields holds what it may. -/
def IsWellFormed (v : Value) : Prop :=
  ∃ t, v = .table t ∧ ∀ f ∈ fields, ∀ w ∈ t.lookup f.1, f.2.Admits w

instance : DecidablePred IsWellFormed := fun v =>
  inferInstanceAs (Decidable (∃ t, v = .table t ∧ ∀ f ∈ fields, ∀ w ∈ t.lookup f.1, f.2.Admits w))

end Settings

namespace Currency

/-- A table with texts for the symbol and the name. -/
def IsWellFormed (v : Value) : Prop :=
  ∃ t, v = .table t ∧ ∀ key ∈ fields, ∃ w ∈ t.lookup key, w.IsText

instance : DecidablePred IsWellFormed := fun v =>
  inferInstanceAs (Decidable (∃ t, v = .table t ∧ ∀ key ∈ fields, ∃ w ∈ t.lookup key, w.IsText))

end Currency

/-- A text that is a tag. -/
def IsTag (s : String) : Prop := (LanguageTag.parse? s).isSome = true

instance : DecidablePred IsTag := fun s =>
  inferInstanceAs (Decidable ((LanguageTag.parse? s).isSome = true))

/-- A table, each of whose parts is well-formed where it is present. -/
structure Database.WellFormed (t : Table) : Prop where
  defaultLocale : ∀ v ∈ t.lookup "default_locale", ∃ s, v = .string s ∧ IsTag s
  base : ∀ v ∈ t.lookup "base", Settings.IsWellFormed v
  currencies : ∀ v ∈ t.lookup "currencies",
    ∃ cs, v = .table cs ∧ ∀ e ∈ cs, Currency.IsWellFormed e.2
  locales : ∀ v ∈ t.lookup "locales",
    ∃ ls, v = .table ls ∧ ∀ e ∈ ls, Settings.IsWellFormed e.2 ∧ IsTag e.1

instance : DecidablePred Database.WellFormed := fun t =>
  decidable_of_iff
    ((∀ v ∈ t.lookup "default_locale", ∃ s, v = .string s ∧ IsTag s) ∧
      (∀ v ∈ t.lookup "base", Settings.IsWellFormed v) ∧
      (∀ v ∈ t.lookup "currencies", ∃ cs, v = .table cs ∧ ∀ e ∈ cs, Currency.IsWellFormed e.2) ∧
      ∀ v ∈ t.lookup "locales",
        ∃ ls, v = .table ls ∧ ∀ e ∈ ls, Settings.IsWellFormed e.2 ∧ IsTag e.1)
    ⟨fun ⟨hd, hb, hc, hl⟩ => ⟨hd, hb, hc, hl⟩, fun ⟨hd, hb, hc, hl⟩ => ⟨hd, hb, hc, hl⟩⟩

/-! ### Without faults -/

section Faults

variable {v : Value}

theorem elim_eq_nil_iff {α : Type} {o : Option α} {fault : Malformation}
    {faults : α → List Malformation} :
    o.elim [fault] faults = [] ↔ ∃ a, o = some a ∧ faults a = [] := by
  cases o with
  | none => simp
  | some a => simp

theorem textFault?_eq_none_iff {fault : Malformation} : textFault? fault v = none ↔ v.IsText := by
  rw [textFault?, Value.IsText]
  simp only [← Value.asString?_eq_some_iff]
  cases v.asString? with
  | none => simp
  | some s => simp

theorem Settings.FieldKind.faults_eq_nil_iff {key locale : String} (kind : FieldKind) :
    kind.faults key locale v = [] ↔ kind.Admits v := by
  cases kind with
  | character => simp [faults, Admits, elim_eq_nil_iff, Value.asString?_eq_some_iff]
  | text => simp [faults, Admits, elim_eq_nil_iff, Value.asString?_eq_some_iff, Value.IsText]
  | numberingSystems =>
    rw [faults, elim_eq_nil_iff, Admits]
    refine exists_congr fun vs => and_congr Value.asArray?_eq_some_iff ?_
    cases vs with
    | nil => simp
    | cons w ws => simp [textFault?_eq_none_iff]
  | currencySymbols =>
    rw [faults, elim_eq_nil_iff, Admits]
    simp only [Value.asTable?_eq_some_iff, List.filterMap_eq_nil_iff, textFault?_eq_none_iff,
      Table.mem_sorted_iff]

theorem Settings.faults_eq_nil_iff {locale : String} :
    Settings.faults locale v = [] ↔ Settings.IsWellFormed v := by
  rw [Settings.faults, elim_eq_nil_iff, Settings.IsWellFormed]
  simp only [Value.asTable?_eq_some_iff, List.flatMap_eq_nil_iff, faultsAt_eq_nil_iff,
    FieldKind.faults_eq_nil_iff]

theorem Currency.faults_eq_nil_iff {code : String} :
    Currency.faults code v = [] ↔ Currency.IsWellFormed v := by
  have hField : ∀ (t : Table) (key : String),
      ((t.lookup key).bind (·.asString?)).elim (some (Malformation.currencyField key code))
        (fun _ => none) = none ↔ ∃ w ∈ t.lookup key, w.IsText := by
    intro t key
    cases t.lookup key with
    | none => simp
    | some w => exact (textFault?_eq_none_iff).trans (by simp)
  rw [Currency.faults, elim_eq_nil_iff, Currency.IsWellFormed]
  simp only [Value.asTable?_eq_some_iff, List.filterMap_eq_nil_iff, hField]

theorem tagFaults_eq_nil_iff {tag : String} : Database.tagFaults tag = [] ↔ IsTag tag := by
  rw [Database.tagFaults, IsTag]
  cases LanguageTag.parse? tag with
  | none => simp
  | some t => simp

/-- **A document has no fault exactly when it is well-formed.** -/
theorem Database.faults_eq_nil_iff :
    Database.faults v = [] ↔ ∃ t, v = .table t ∧ Database.WellFormed t := by
  have hDefault : ∀ v, defaultLocaleFaults v = [] ↔ ∃ s, v = .string s ∧ IsTag s := by
    intro v
    rw [defaultLocaleFaults, elim_eq_nil_iff]
    simp only [Value.asString?_eq_some_iff, tagFaults_eq_nil_iff]
  have hCurrencies : ∀ v, currenciesFaults v = [] ↔
      ∃ cs, v = .table cs ∧ ∀ e ∈ cs, Currency.IsWellFormed e.2 := by
    intro v
    rw [currenciesFaults, elim_eq_nil_iff]
    simp only [Value.asTable?_eq_some_iff, List.flatMap_eq_nil_iff, Table.mem_sorted_iff,
      Currency.faults_eq_nil_iff]
  have hLocales : ∀ v, localesFaults v = [] ↔
      ∃ ls, v = .table ls ∧ ∀ e ∈ ls, Settings.IsWellFormed e.2 ∧ IsTag e.1 := by
    intro v
    rw [localesFaults, elim_eq_nil_iff]
    simp only [Value.asTable?_eq_some_iff, List.flatMap_eq_nil_iff, Table.mem_sorted_iff,
      List.append_eq_nil_iff, Settings.faults_eq_nil_iff, tagFaults_eq_nil_iff]
  rw [Database.faults, elim_eq_nil_iff]
  refine exists_congr fun t => and_congr Value.asTable?_eq_some_iff ?_
  simp only [parts, List.flatMap_eq_nil_iff, List.forall_mem_cons, faultsAt_eq_nil_iff, hDefault,
    hCurrencies, hLocales, Settings.faults_eq_nil_iff]
  constructor
  · rintro ⟨hd, hb, hc, hl, -⟩
    exact ⟨hd, hb, hc, hl⟩
  · rintro ⟨hd, hb, hc, hl⟩
    exact ⟨hd, hb, hc, hl, List.forall_mem_nil _⟩

end Faults

end Numeral
