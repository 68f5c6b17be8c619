import Numeral.Locale.Load
import Numeral.Proofs.Outcome
import Numeral.Proofs.Toml.Table

/-!
# Faults of locale data

All that is wrong with a document of locale data, in the order in which it is read: the default
locale, the base settings, the currencies, the locales, and in each table the entries by their keys.
The fault that is reported is the first of them (`faultOf_ofDocument`).
-/

namespace Numeral

open Toml (Table Value)

/-! ### What stands under a key -/

/-- The faults of what stands under a key, if anything does. -/
def Toml.Table.faultsAt (t : Table) (key : String) (faults : Value → List Malformation) :
    List Malformation :=
  (t.lookup key).elim [] faults

section Lookup

variable {α : Type} {t : Table} {key : String} {faults : Value → List Malformation}

theorem faultsAt_eq_nil_iff :
    t.faultsAt key faults = [] ↔ ∀ v ∈ t.lookup key, faults v = [] := by
  rw [Table.faultsAt]
  cases t.lookup key with
  | none => simp
  | some v => simp

/-- What is read under a key, or taken from elsewhere if there is none, has the faults of what is
read. -/
theorem faultOf_lookup {a : α} {read : Value → Except Malformation α}
    (h : ∀ v, faultOf (read v) = (faults v).head?) :
    faultOf (match t.lookup key with | none => .ok a | some v => read v) =
      (t.faultsAt key faults).head? := by
  rw [Table.faultsAt]
  cases t.lookup key with
  | none => rfl
  | some v => exact h v

end Lookup

/-- The fault of a value that should be a text. -/
def textFault? (fault : Malformation) (v : Value) : Option Malformation :=
  v.asString?.elim (some fault) fun _ => none

theorem faultOf_text {α : Type} (fault : Malformation) (read : String → α) (v : Value) :
    faultOf (match v.asString? with | some s => .ok (read s) | none => .error fault) =
      textFault? fault v := by
  rw [textFault?]
  cases v.asString? with
  | none => rfl
  | some s => rfl

/-! ### Settings -/

namespace Settings

/-- What a field of a locale's settings has to hold. -/
inductive FieldKind where
  /-- A text that is not empty, of which the first character counts. -/
  | character
  /-- A text. -/
  | text
  /-- A list of texts that is not empty. -/
  | numberingSystems
  /-- A table of texts. -/
  | currencySymbols

/-- The fields of a locale's settings, in the order in which they are read. -/
def fields : List (String × FieldKind) :=
  [("decimal", .character), ("group", .character), ("minus", .text), ("percent", .text),
    ("nan", .text), ("infinity", .text), ("percent_pattern", .text), ("currency_pattern", .text),
    ("numbering_systems", .numberingSystems), ("currency_symbols", .currencySymbols)]

/-- What is wrong with the value of a field. -/
def FieldKind.faults (key locale : String) : FieldKind → Value → List Malformation
  | .character, v => v.asString?.elim [.field key locale] fun s =>
      if s = "" then [.field key locale] else []
  | .text, v => v.asString?.elim [.field key locale] fun _ => []
  | .numberingSystems, v => v.asArray?.elim [.field key locale] fun vs =>
      if vs.isEmpty then [.field key locale]
      else vs.filterMap (textFault? (.numberingSystem locale))
  | .currencySymbols, v => v.asTable?.elim [.field key locale] fun t =>
      t.sorted.filterMap fun e => textFault? (.currencySymbol e.1 locale) e.2

/-- What is wrong with the settings of a locale. -/
def faults (locale : String) (v : Value) : List Malformation :=
  v.asTable?.elim [.settings locale] fun t =>
    fields.flatMap fun f => t.faultsAt f.1 (f.2.faults f.1 locale)

variable {t : Table} {key locale : String}

theorem faultOf_charField (c : Char) :
    faultOf (charField t key locale c) =
      (t.faultsAt key (FieldKind.character.faults key locale)).head? := by
  apply faultOf_lookup
  intro v
  rw [FieldKind.faults]
  cases v.asString? with
  | none => rfl
  | some s =>
    rw [Option.bind_some, Option.elim_some]
    by_cases hs : s = ""
    · subst hs
      rfl
    · obtain ⟨c, cs, hcs⟩ := List.exists_cons_of_ne_nil fun h => hs (String.toList_eq_nil_iff.mp h)
      rw [if_neg hs, hcs]
      rfl

theorem faultOf_textField (s : String) :
    faultOf (textField t key locale s) =
      (t.faultsAt key (FieldKind.text.faults key locale)).head? := by
  apply faultOf_lookup
  intro v
  rw [FieldKind.faults]
  cases v.asString? with
  | none => rfl
  | some s => rfl

theorem faultOf_numberingSystemsField (names : List String) :
    faultOf (numberingSystemsField t locale names) =
      (t.faultsAt "numbering_systems"
        (FieldKind.numberingSystems.faults "numbering_systems" locale)).head? := by
  apply faultOf_lookup
  intro v
  rw [FieldKind.faults]
  match v.asArray? with
  | none => rfl
  | some [] => rfl
  | some (v :: vs) =>
    show faultOf ((v :: vs).mapM _) = ((v :: vs).filterMap _).head?
    rw [List.head?_filterMap]
    exact faultOf_mapM (faultOf_text _ id) _

theorem faultOf_currencySymbolsField (known : Std.TreeMap String String) :
    faultOf (currencySymbolsField t locale known) =
      (t.faultsAt "currency_symbols"
        (FieldKind.currencySymbols.faults "currency_symbols" locale)).head? := by
  apply faultOf_lookup
  intro v
  rw [FieldKind.faults]
  cases v.asTable? with
  | none => rfl
  | some symbols =>
    show faultOf (symbols.sorted.foldlM _ known) = (symbols.sorted.filterMap _).head?
    rw [List.head?_filterMap]
    apply faultOf_foldlM
    intro known e
    exact faultOf_text _ (fun s => known.insert e.1.toUpper s) e.2

theorem faultOf_ofToml (base : Settings) (locale : String) (v : Value) :
    faultOf (base.ofToml v locale) = (faults locale v).head? := by
  rw [ofToml, faults]
  cases v.asTable? with
  | none => rfl
  | some t =>
    simp only [Option.elim_some, fields, List.flatMap_cons, List.flatMap_nil, List.head?_append,
      List.head?_nil]
    refine faultOf_bind (faultOf_charField _) fun decimal => ?_
    refine faultOf_bind (faultOf_charField _) fun group => ?_
    refine faultOf_bind (faultOf_textField _) fun minus => ?_
    refine faultOf_bind (faultOf_textField _) fun percent => ?_
    refine faultOf_bind (faultOf_textField _) fun nan => ?_
    refine faultOf_bind (faultOf_textField _) fun infinity => ?_
    refine faultOf_bind (faultOf_textField _) fun percentPattern => ?_
    refine faultOf_bind (faultOf_textField _) fun currencyPattern => ?_
    refine faultOf_bind (faultOf_numberingSystemsField _) fun numberingSystems => ?_
    exact faultOf_bind (faultOf_currencySymbolsField _) fun currencySymbols => rfl

end Settings

/-! ### Currencies -/

namespace Currency

/-- The fields of a currency, in the order in which they are read. -/
def fields : List String := ["symbol", "name"]

/-- What is wrong with a currency. -/
def faults (code : String) (v : Value) : List Malformation :=
  v.asTable?.elim [.currency code] fun t => fields.filterMap fun key =>
    ((t.lookup key).bind (·.asString?)).elim (some (.currencyField key code)) fun _ => none

theorem faultOf_textField (t : Table) (key code : String) :
    faultOf (textField t key code) =
      ((t.lookup key).bind (·.asString?)).elim (some (.currencyField key code)) fun _ => none := by
  rw [textField]
  cases (t.lookup key).bind (·.asString?) with
  | none => rfl
  | some s => rfl

theorem faultOf_ofToml (v : Value) (code : String) :
    faultOf (ofToml v code) = (faults code v).head? := by
  rw [ofToml, faults]
  cases v.asTable? with
  | none => rfl
  | some t =>
    simp only [Option.elim_some, fields, List.head?_filterMap, findSome?_cons_eq_or,
      List.findSome?_nil]
    refine faultOf_bind (faultOf_textField t "symbol" code) fun symbol => ?_
    exact faultOf_bind (faultOf_textField t "name" code) fun name => rfl

end Currency

/-! ### Documents -/

namespace Database

/-- What is wrong with a tag. -/
def tagFaults (tag : String) : List Malformation :=
  if (LanguageTag.parse? tag).isSome then [] else [.tag tag]

/-- What is wrong with the default locale. -/
def defaultLocaleFaults (v : Value) : List Malformation :=
  v.asString?.elim [.defaultLocale] tagFaults

/-- What is wrong with the currencies. -/
def currenciesFaults (v : Value) : List Malformation :=
  v.asTable?.elim [.currencies] fun t => t.sorted.flatMap fun e => Currency.faults e.1 e.2

/-- What is wrong with the locales. -/
def localesFaults (v : Value) : List Malformation :=
  v.asTable?.elim [.locales] fun t =>
    t.sorted.flatMap fun e => Settings.faults e.1 e.2 ++ tagFaults e.1

/-- The parts of a document, in the order in which they are read, and what is wrong with each. -/
def parts : List (String × (Value → List Malformation)) :=
  [("default_locale", defaultLocaleFaults), ("base", Settings.faults "base"),
    ("currencies", currenciesFaults), ("locales", localesFaults)]

/-- What is wrong with a document. -/
def faults (doc : Value) : List Malformation :=
  doc.asTable?.elim [.root] fun t => parts.flatMap fun part => t.faultsAt part.1 part.2

theorem faultOf_canonicalTag (tag : String) :
    faultOf (canonicalTag tag) = (tagFaults tag).head? := by
  rw [canonicalTag, tagFaults]
  cases LanguageTag.parse? tag with
  | none => rfl
  | some t => rfl

theorem faultOf_defaultLocaleOf (t : Table) :
    faultOf (defaultLocaleOf t) = (t.faultsAt "default_locale" defaultLocaleFaults).head? := by
  apply faultOf_lookup
  intro v
  rw [defaultLocaleFaults]
  cases v.asString? with
  | none => rfl
  | some tag => exact faultOf_canonicalTag tag

theorem faultOf_baseOf (t : Table) :
    faultOf (baseOf t) = (t.faultsAt "base" (Settings.faults "base")).head? := by
  apply faultOf_lookup
  exact Settings.faultOf_ofToml Settings.plain "base"

theorem faultOf_currenciesOf (t : Table) :
    faultOf (currenciesOf t) = (t.faultsAt "currencies" currenciesFaults).head? := by
  apply faultOf_lookup
  intro v
  rw [currenciesFaults]
  cases v.asTable? with
  | none => rfl
  | some currencies =>
    show faultOf (currencies.sorted.foldlM _ _) = (currencies.sorted.flatMap _).head?
    rw [List.head?_flatMap]
    apply faultOf_foldlM
    intro known e
    rw [← (Currency.faults e.1 e.2).head?.or_none]
    exact faultOf_bind (Currency.faultOf_ofToml e.2 e.1) fun _ => rfl

theorem faultOf_localesOf (t : Table) (base : Settings) :
    faultOf (localesOf t base) = (t.faultsAt "locales" localesFaults).head? := by
  apply faultOf_lookup
  intro v
  rw [localesFaults]
  cases v.asTable? with
  | none => rfl
  | some locales =>
    show faultOf (locales.sorted.foldlM _ _) = (locales.sorted.flatMap _).head?
    rw [List.head?_flatMap]
    apply faultOf_foldlM
    intro known e
    rw [List.head?_append, ← (tagFaults e.1).head?.or_none]
    refine faultOf_bind (base.faultOf_ofToml e.1 e.2) fun _ => ?_
    exact faultOf_bind (faultOf_canonicalTag e.1) fun _ => rfl

/-- **The first fault of a document is reported.** -/
theorem faultOf_ofDocument (doc : Value) : faultOf (ofDocument doc) = (faults doc).head? := by
  rw [ofDocument, faults]
  cases doc.asTable? with
  | none => rfl
  | some t =>
    simp only [Option.elim_some, parts, List.flatMap_cons, List.flatMap_nil, List.head?_append,
      List.head?_nil]
    refine faultOf_bind (faultOf_defaultLocaleOf t) fun _ => ?_
    refine faultOf_bind (faultOf_baseOf t) fun base => ?_
    refine faultOf_bind (faultOf_currenciesOf t) fun _ => ?_
    exact faultOf_bind (faultOf_localesOf t base) fun _ => rfl

end Database

end Numeral
