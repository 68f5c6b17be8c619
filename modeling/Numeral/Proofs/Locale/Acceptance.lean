import Numeral.Proofs.Locale.WellFormed

/-!
# Acceptance of locale data

A document is accepted exactly when it is well-formed, and otherwise the first of its faults is
reported; entries under other keys than those that are read do not matter (`ofToml_screened`).  All
this is about the document as it is read: written with the reserved key in front, a table is a date
(`not_ofToml_written`).
-/

namespace Numeral

open Toml (Table Value)

/-! ### Entries that are not read -/

namespace Toml.Value

/-- The value, with the entries under some keys only if it is a table. -/
def only (keys : List String) : Value → Value
  | .table t => .table (Table.only t keys)
  | v => v

/-- The value, with other values under its keys if it is a table. -/
def mapValues (f : String → Value → Value) : Value → Value
  | .table t => .table (Table.mapValues t f)
  | v => v

theorem asTable?_only (keys : List String) (v : Value) :
    (v.only keys).asTable? = v.asTable?.map (Table.only · keys) := by
  cases v <;> rfl

theorem asTable?_mapValues (f : String → Value → Value) (v : Value) :
    (v.mapValues f).asTable? = v.asTable?.map (Table.mapValues · f) := by
  cases v <;> rfl

end Toml.Value

/-- The settings of a locale, with the fields only that are read. -/
def Settings.relevant (v : Value) : Value := v.only (Settings.fields.map Prod.fst)

/-- A currency, with the fields only that are read. -/
def Currency.relevant (v : Value) : Value := v.only Currency.fields

namespace Database

/-- A part of a document, with what is read of it only. -/
def relevantPart : String → Value → Value
  | "base", v => Settings.relevant v
  | "currencies", v => v.mapValues fun _ => Currency.relevant
  | "locales", v => v.mapValues fun _ => Settings.relevant
  | _, v => v

/-- A document, with what is read of it only. -/
def relevant (doc : Value) : Value := (doc.only (parts.map Prod.fst)).mapValues relevantPart

end Database

theorem Settings.ofToml_relevant (base : Settings) (locale : String) (v : Value) :
    base.ofToml (Settings.relevant v) locale = base.ofToml v locale := by
  rw [ofToml, ofToml, relevant, Value.asTable?_only]
  cases v.asTable? with
  | none => rfl
  | some t =>
    simp (disch := decide) only [Option.map_some, charField, textField, numberingSystemsField,
      currencySymbolsField, Table.lookup_only]

theorem Currency.ofToml_relevant (code : String) (v : Value) :
    ofToml (Currency.relevant v) code = ofToml v code := by
  rw [ofToml, ofToml, relevant, Value.asTable?_only]
  cases v.asTable? with
  | none => rfl
  | some t => simp (disch := decide) only [Option.map_some, textField, Table.lookup_only]

namespace Database

variable {t : Table}

/-- The parts of a document, with what is read of them only. -/
def relevantTable (t : Table) : Table := (t.only (parts.map Prod.fst)).mapValues relevantPart

theorem lookup_relevantTable {key : String} (h : key ∈ parts.map Prod.fst) :
    (relevantTable t).lookup key = (t.lookup key).map (relevantPart key) := by
  rw [relevantTable, Table.lookup_mapValues, Table.lookup_only h]

theorem defaultLocaleOf_relevantTable : defaultLocaleOf (relevantTable t) = defaultLocaleOf t := by
  rw [defaultLocaleOf, defaultLocaleOf, lookup_relevantTable (by decide)]
  cases t.lookup "default_locale" with
  | none => rfl
  | some v => rfl

theorem baseOf_relevantTable : baseOf (relevantTable t) = baseOf t := by
  rw [baseOf, baseOf, lookup_relevantTable (by decide)]
  cases t.lookup "base" with
  | none => rfl
  | some v => exact Settings.ofToml_relevant Settings.plain "base" v

theorem currenciesOf_relevantTable : currenciesOf (relevantTable t) = currenciesOf t := by
  rw [currenciesOf, currenciesOf, lookup_relevantTable (by decide)]
  cases t.lookup "currencies" with
  | none => rfl
  | some v =>
    simp only [Option.map_some, relevantPart, Value.asTable?_mapValues]
    cases v.asTable? with
    | none => rfl
    | some cs =>
      simp only [Option.map_some, Table.sorted_mapValues, List.foldlM_map,
        Currency.ofToml_relevant]

theorem localesOf_relevantTable (base : Settings) :
    localesOf (relevantTable t) base = localesOf t base := by
  rw [localesOf, localesOf, lookup_relevantTable (by decide)]
  cases t.lookup "locales" with
  | none => rfl
  | some v =>
    simp only [Option.map_some, relevantPart, Value.asTable?_mapValues]
    cases v.asTable? with
    | none => rfl
    | some ls =>
      simp only [Option.map_some, Table.sorted_mapValues, List.foldlM_map,
        Settings.ofToml_relevant]

/-- What is not read of a document makes no difference. -/
theorem ofDocument_relevant (doc : Value) : ofDocument (relevant doc) = ofDocument doc := by
  rw [ofDocument, ofDocument, relevant, Value.asTable?_mapValues, Value.asTable?_only]
  cases doc.asTable? with
  | none => rfl
  | some t =>
    show ofTable (relevantTable t) = ofTable t
    simp only [ofTable, defaultLocaleOf_relevantTable, baseOf_relevantTable,
      currenciesOf_relevantTable, localesOf_relevantTable]

/-! ### Texts -/

variable {text : String}

theorem ofToml_of_parse? {doc : Value} (h : Toml.parse? text = some doc) :
    ofToml text = (ofDocument doc).mapError .malformed := by
  rw [ofToml, h]

theorem ofToml_eq_notToml_iff : ofToml text = .error .notToml ↔ Toml.parse? text = none := by
  cases h : Toml.parse? text with
  | none => simp [ofToml, h]
  | some doc =>
    rw [ofToml_of_parse? h]
    cases ofDocument doc with
    | error cause => simp [Except.mapError]
    | ok db => simp [Except.mapError]

theorem ofToml_eq_malformed_iff {doc : Value} {cause : Malformation}
    (h : Toml.parse? text = some doc) :
    ofToml text = .error (.malformed cause) ↔ (faults doc).head? = some cause := by
  rw [ofToml_of_parse? h, ← faultOf_ofDocument, faultOf_eq_some_iff]
  cases ofDocument doc with
  | error cause' => simp [Except.mapError]
  | ok db => simp [Except.mapError]

theorem exists_ofToml_eq_ok_iff {doc : Value} (h : Toml.parse? text = some doc) :
    (∃ db, ofToml text = .ok db) ↔ ∃ t, doc = .table t ∧ WellFormed t := by
  simp only [ofToml_of_parse? h, mapError_eq_ok_iff]
  rw [← faultOf_eq_none_iff, faultOf_ofDocument, List.head?_eq_none_iff, faults_eq_nil_iff]

/-- **A document is accepted exactly when it is well-formed, and else its first fault is reported.**
What is not read of a document makes no difference, and a document is read as it is written unless a
table in it has the reserved key in front. -/
theorem ofToml_screened (text : String) :
    (ofToml text = .error .notToml ↔ Toml.parse? text = none) ∧
    (∀ t, Toml.written? text = some t → (Value.table t).isPlain = true →
      Toml.parse? text = some (.table t)) ∧
    ∀ doc, Toml.parse? text = some doc →
      (∀ cause, ofToml text = .error (.malformed cause) ↔ (faults doc).head? = some cause) ∧
      ((∃ db, ofToml text = .ok db) ↔ ∃ t, doc = .table t ∧ WellFormed t) ∧
      ∀ text' doc', Toml.parse? text' = some doc' → relevant doc' = relevant doc →
        ofToml text' = ofToml text := by
  refine ⟨ofToml_eq_notToml_iff, fun t => Toml.parse?_of_isPlain, ?_⟩
  intro doc hDoc
  refine ⟨fun cause => ofToml_eq_malformed_iff hDoc, exists_ofToml_eq_ok_iff hDoc, ?_⟩
  intro text' doc' hDoc' hRelevant
  rw [ofToml_of_parse? hDoc, ofToml_of_parse? hDoc', ← ofDocument_relevant doc', hRelevant,
    ofDocument_relevant]

/-- A document with four faults, which stand in another order than that of the checks. -/
def faultyDocument : String :=
  "note = 1\n[locales.d]\ngroup = 1\ndecimal = ''\n[currencies.eur]\nsymbol = '€'\n"

/-- Of four faults the one in the currencies is reported. -/
theorem ofToml_screened_currencies :
    ∃ doc, Toml.parse? faultyDocument = some doc ∧
      faults doc = [.currencyField "name" "eur", .field "decimal" "d", .field "group" "d",
        .tag "d"] ∧
      ofToml faultyDocument = .error (.malformed (.currencyField "name" "eur")) := by
  have hFaults : (Toml.parse? faultyDocument).map faults = some
      [.currencyField "name" "eur", .field "decimal" "d", .field "group" "d", .tag "d"] := by
    decide +kernel
  obtain ⟨doc, hDoc, hFaults⟩ := Option.map_eq_some_iff.mp hFaults
  obtain ⟨-, -, hScreened⟩ := ofToml_screened faultyDocument
  obtain ⟨hFirst, -, -⟩ := hScreened doc hDoc
  exact ⟨doc, hDoc, hFaults, (hFirst _).mpr (by rw [hFaults]; rfl)⟩

/-- A document whose only key is the reserved one. -/
def reservedDocument : String := "\"$__toml_private_datetime\" = \"1979-05-27\""

/-- A document may be well-formed as it is written and be no table as it is read. -/
theorem not_ofToml_written :
    ¬ ∀ text t, Toml.written? text = some t → WellFormed t → ∃ db, ofToml text = .ok db := by
  intro h
  have hWritten : ∃ t ∈ Toml.written? reservedDocument, WellFormed t := by decide +kernel
  have hRead : faultOf (ofToml reservedDocument) = some (.malformed .root) := by decide +kernel
  obtain ⟨t, ht, hWell⟩ := hWritten
  obtain ⟨db, hdb⟩ := h reservedDocument t ht hWell
  rw [hdb] at hRead
  cases hRead

end Database

end Numeral
