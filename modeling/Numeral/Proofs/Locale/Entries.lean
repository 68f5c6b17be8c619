import Numeral.Options.Config
import Numeral.Proofs.Locale.Acceptance
import Numeral.Proofs.Locale.Edits
import Numeral.Proofs.Locale.Layers

/-!
# Entries of a database

The locales of a database are those that the keys of its document name, each with the settings
under the last of its keys over the base settings, and its currencies are those under the last
spellings of their codes (`ofToml_layered`).
-/

namespace Numeral

open Toml (Table Value)

/-- Whether a key is a tag with the given base name. -/
def namesLocale (l key : String) : Bool := (LanguageTag.parse? key).map (·.baseName) == some l

/-- The currency has the symbol and the name of a table. -/
def Currency.IsRead (c : Currency) (v : Value) : Prop :=
  ∃ t, v = .table t ∧ t.lookup "symbol" = some (.string c.symbol) ∧
    t.lookup "name" = some (.string c.name)

namespace Currency

theorem lookup_of_textField {t : Table} {key code x : String} (h : textField t key code = .ok x) :
    t.lookup key = some (.string x) := by
  rw [textField] at h
  split at h
  · rename_i y hy
    cases h
    obtain ⟨v, hv, hText⟩ := Option.bind_eq_some_iff.mp hy
    rw [hv, Value.asString?_eq_some_iff.mp hText]
  · cases h

theorem isRead_of_ofToml {v : Value} {code : String} {c : Currency} (h : ofToml v code = .ok c) :
    c.IsRead v := by
  rw [ofToml] at h
  cases hv : v.asTable? with
  | none =>
    rw [hv] at h
    cases h
  | some t =>
    simp only [hv] at h
    obtain ⟨symbol, hSymbol, h⟩ := bind_eq_ok_iff.mp h
    obtain ⟨name, hName, h⟩ := bind_eq_ok_iff.mp h
    rw [← pure_eq_ok_iff.mp h]
    exact ⟨t, Value.asTable?_eq_some_iff.mp hv, lookup_of_textField hSymbol,
      lookup_of_textField hName⟩

end Currency

theorem CurrencyCode.text_of_parse? {s : String} {code : CurrencyCode} (h : parse? s = some code) :
    code.text = s.toUpper := by
  rw [parse?] at h
  split at h
  · cases h
    rfl
  · cases h

namespace Database

/-- The table of the base settings, if there is one. -/
def baseLayers (root : Table) : List Table := ((root.lookup "base").bind (·.asTable?)).toList

/-- The database has the locales and the currencies of a document. -/
structure HasEntriesOf (db : Database) (root : Table) : Prop where
  available : ∀ l, l ∈ db.availableLocales ↔
    ∃ e ∈ root.entriesAt "locales", (LanguageTag.parse? e.1).map (·.baseName) = some l
  settings : ∀ l s, db.settings? l = some s →
    ∃ key own, (root.entriesAt "locales").last? (namesLocale l) = some (key, .table own) ∧
      Settings.Layered (own :: baseLayers root) Settings.plain s
  currency : ∀ s code, CurrencyCode.parse? s = some code →
    ((root.entriesAt "currencies").last? (spellsCode s.toUpper)).elim
      (db.currency? code.text = none) fun e =>
        ∃ c, db.currency? code.text = some c ∧ c.IsRead e.2

variable {root : Table} {base : Settings} {db : Database}

theorem layered_of_baseOf (h : baseOf root = .ok base) :
    Settings.Layered (baseLayers root) Settings.plain base := by
  rw [baseOf] at h
  rw [baseLayers]
  cases hv : root.lookup "base" with
  | none =>
    rw [hv] at h
    cases h
    exact Settings.layered_nil Settings.plain
  | some v =>
    rw [hv] at h
    obtain ⟨t, rfl, ht⟩ := Settings.layered_of_ofToml h
    exact ht

theorem currency_of_currenciesOf {currencies : Std.TreeMap String Currency}
    (h : currenciesOf root = .ok currencies) (code : String) :
    ((root.entriesAt "currencies").last? (spellsCode code)).elim (currencies[code]? = none) fun e =>
      ∃ c, currencies[code]? = some c ∧ c.IsRead e.2 := by
  refine getElem?_of_foldlM_sorted spellsCode (fun c e => c.IsRead e.2) ?_
    (foldlM_sorted_entriesAt h) code
  intro m e m' hm
  obtain ⟨c, hc, hm⟩ := bind_eq_ok_iff.mp hm
  exact ⟨e.1.toUpper, c, fun _ => rfl, Currency.isRead_of_ofToml hc, pure_eq_ok_iff.mp hm⟩

theorem settings_of_localesOf {locales : Std.TreeMap String Settings}
    (h : localesOf root base = .ok locales) (l : String) :
    ((root.entriesAt "locales").last? (namesLocale l)).elim (locales[l]? = none) fun e =>
      ∃ s, locales[l]? = some s ∧ ∃ t, e.2 = .table t ∧ Settings.Layered [t] base s := by
  refine getElem?_of_foldlM_sorted namesLocale
    (fun s e => ∃ t, e.2 = .table t ∧ Settings.Layered [t] base s) ?_
    (foldlM_sorted_entriesAt h) l
  intro m e m' hm
  obtain ⟨s, hs, hm⟩ := bind_eq_ok_iff.mp hm
  obtain ⟨k, hk, hm⟩ := bind_eq_ok_iff.mp hm
  refine ⟨k, s, ?_, Settings.layered_of_ofToml hs, pure_eq_ok_iff.mp hm⟩
  intro l
  rw [canonicalTag] at hk
  cases ht : LanguageTag.parse? e.1 with
  | none =>
    rw [ht] at hk
    cases hk
  | some t =>
    rw [ht] at hk
    cases hk
    rw [namesLocale, ht]
    rfl

theorem hasEntriesOf_of_ofTable (h : ofTable root = .ok db) :
    db.HasEntriesOf root := by
  obtain ⟨defaultLocale, -, h⟩ := bind_eq_ok_iff.mp h
  obtain ⟨base, hBase, h⟩ := bind_eq_ok_iff.mp h
  obtain ⟨currencies, hCurrencies, h⟩ := bind_eq_ok_iff.mp h
  obtain ⟨locales, hLocales, h⟩ := bind_eq_ok_iff.mp h
  obtain rfl := pure_eq_ok_iff.mp h
  constructor
  · intro l
    have hFound := settings_of_localesOf hLocales l
    have hSome : locales[l]?.isSome =
        ((root.entriesAt "locales").last? (namesLocale l)).isSome := by
      cases hLast : (root.entriesAt "locales").last? (namesLocale l) with
      | none =>
        rw [hLast] at hFound
        exact congrArg Option.isSome hFound
      | some e =>
        rw [hLast] at hFound
        obtain ⟨s, hs, -⟩ := hFound
        rw [hs, Option.isSome_some, Option.isSome_some]
    rw [mem_availableLocales_iff, contains, ← Std.TreeMap.isSome_getElem?_eq_contains, hSome,
      Table.isSome_last?_iff]
    simp only [namesLocale, beq_iff_eq]
  · intro l s hs
    have hFound := settings_of_localesOf hLocales l
    rw [settings?] at hs
    rw [hs] at hFound
    cases hLast : (root.entriesAt "locales").last? (namesLocale l) with
    | none =>
      rw [hLast] at hFound
      cases hFound
    | some e =>
      rw [hLast] at hFound
      obtain ⟨s', hs', t, ht, hLayered⟩ := hFound
      obtain rfl := Option.some.inj hs'
      refine ⟨e.1, t, ?_, hLayered.cons (layered_of_baseOf hBase)⟩
      rw [← ht]
  · intro s code hCode
    rw [CurrencyCode.text_of_parse? hCode]
    exact currency_of_currenciesOf hCurrencies s.toUpper

/-- **The settings of each locale are layered, field by field.**  The available locales are those
that the keys of a document name, the settings of each come from its last key, from the base
settings and from those of an unknown locale, and the currencies from the last spellings of their
codes. -/
theorem ofToml_layered {text : String} (h : ofToml text = .ok db) :
    ∃ root, Toml.parse? text = some (.table root) ∧ db.HasEntriesOf root := by
  rw [ofToml] at h
  cases hDoc : Toml.parse? text with
  | none => simp [hDoc] at h
  | some doc =>
    simp only [hDoc, mapError_eq_ok_iff] at h
    rw [ofDocument] at h
    cases hRoot : doc.asTable? with
    | none => simp [hRoot] at h
    | some root =>
      simp only [hRoot] at h
      obtain rfl := Value.asTable?_eq_some_iff.mp hRoot
      exact ⟨root, rfl, hasEntriesOf_of_ofTable h⟩

/-- A document with two spellings of one tag. -/
def austrianDocument : String :=
  "[base]\nminus = '~'\n[locales.DE_at]\nminus = 'm'\n[locales.de_AT]\ndecimal = ','\n"

/-- Of two spellings of a tag the last one counts, and what it does not tell comes from the base
settings and not from the first one. -/
theorem ofToml_layered_austria :
    ∃ db s, ofToml austrianDocument = .ok db ∧ db.settings? "de-AT" = some s ∧
      s.decimal = ',' ∧ s.minus = "~" := by
  have hShape : ∃ doc ∈ Toml.parse? austrianDocument, ∃ root : Table, doc = .table root ∧
      WellFormed root ∧
      (root.entriesAt "locales").Pairwise (fun e e' => (compare e.1 e'.1).isLE = true) ∧
      ∃ e ∈ (root.entriesAt "locales").reverse.find? fun e => namesLocale "de-AT" e.1,
        ∃ own, e.2 = .table own ∧
          ((own :: baseLayers root).findSome? (·.lookup "decimal")).bind Settings.firstChar? =
            some ',' ∧
          ((own :: baseLayers root).findSome? (·.lookup "minus")).bind (·.asString?) =
            some "~" := by
    decide +kernel
  obtain ⟨_, hDoc, root, rfl, hWell, hOrder, e, he, own, hOwn, hDecimal, hMinus⟩ := hShape
  obtain ⟨db, hdb⟩ := (exists_ofToml_eq_ok_iff hDoc).mpr ⟨root, rfl, hWell⟩
  obtain ⟨root', hRoot, hEntries⟩ := ofToml_layered hdb
  obtain rfl : root = root' := by
    rw [Option.mem_def.mp hDoc] at hRoot
    cases hRoot
    rfl
  have hLast : (root.entriesAt "locales").last? (namesLocale "de-AT") = some e := by
    rw [Table.last?, Table.sorted, List.mergeSort_of_pairwise hOrder]
    exact he
  have hAvailable : "de-AT" ∈ db.availableLocales := by
    obtain ⟨hMem, hName, -⟩ := Table.last?_eq_some hLast
    exact (hEntries.available _).mpr ⟨e, hMem, beq_iff_eq.mp hName⟩
  rw [mem_availableLocales_iff, contains, ← Std.TreeMap.isSome_getElem?_eq_contains] at hAvailable
  obtain ⟨s, hs⟩ := Option.isSome_iff_exists.mp hAvailable
  obtain ⟨key, own', hLast', hLayered⟩ := hEntries.settings "de-AT" s hs
  obtain rfl : own = own' := by
    rw [hLast] at hLast'
    cases hLast'
    cases hOwn
    rfl
  exact ⟨db, s, hdb, hs, hLayered.decimal.eq_of_bind hDecimal, hLayered.minus.eq_of_bind hMinus⟩

end Database

end Numeral
