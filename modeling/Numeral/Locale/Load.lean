import Numeral.Locale.Database
import Numeral.Toml.Document

/-!
# Loading locale databases

A locale database is read from a TOML document with a default locale, a table of base settings, a
table of currencies by code and a table of locales by tag.  Each locale has the base settings where
its own table says nothing.  Tables are visited in the order of their keys, and the first entry that
is not as it should be is the error.
-/

namespace Numeral

namespace Settings

open Toml (Table)

/-- The first character of a field that is a text with one, or the given character if there is no
such field. -/
def charField (t : Table) (key locale : String) (base : Char) : Except Malformation Char :=
  match t.lookup key with
  | none => .ok base
  | some v =>
    match v.asString?.bind (·.toList.head?) with
    | some c => .ok c
    | none => .error (.field key locale)

/-- A field that is a text, or the given text if there is no such field. -/
def textField (t : Table) (key locale : String) (base : String) : Except Malformation String :=
  match t.lookup key with
  | none => .ok base
  | some v =>
    match v.asString? with
    | some s => .ok s
    | none => .error (.field key locale)

/-- The numbering systems, at least one, or the given ones if there is no field for them. -/
def numberingSystemsField (t : Table) (locale : String) (base : List String) :
    Except Malformation (List String) :=
  match t.lookup "numbering_systems" with
  | none => .ok base
  | some v =>
    match v.asArray? with
    | none | some [] => .error (.field "numbering_systems" locale)
    | some items => items.mapM fun v =>
      match v.asString? with
      | some s => .ok s
      | none => .error (.numberingSystem locale)

/-- The given currency symbols with those of the field for them, by codes in capital letters. -/
def currencySymbolsField (t : Table) (locale : String) (base : Std.TreeMap String String) :
    Except Malformation (Std.TreeMap String String) :=
  match t.lookup "currency_symbols" with
  | none => .ok base
  | some v =>
    match v.asTable? with
    | none => .error (.field "currency_symbols" locale)
    | some symbols => symbols.sorted.foldlM (fun known (code, v) =>
      match v.asString? with
      | some s => .ok (known.insert code.toUpper s)
      | none => .error (.currencySymbol code locale)) base

/-- The base settings with the fields of a locale's table in place of them. -/
def ofToml (base : Settings) (v : Toml.Value) (locale : String) : Except Malformation Settings := do
  match v.asTable? with
  | none => throw (.settings locale)
  | some t =>
    return {
      decimal := ← charField t "decimal" locale base.decimal
      group := ← charField t "group" locale base.group
      minus := ← textField t "minus" locale base.minus
      percent := ← textField t "percent" locale base.percent
      nan := ← textField t "nan" locale base.nan
      infinity := ← textField t "infinity" locale base.infinity
      percentPattern := ← textField t "percent_pattern" locale base.percentPattern
      currencyPattern := ← textField t "currency_pattern" locale base.currencyPattern
      numberingSystems := ← numberingSystemsField t locale base.numberingSystems
      currencySymbols := ← currencySymbolsField t locale base.currencySymbols }

end Settings

namespace Currency

/-- A field of a currency, which has to be a text. -/
def textField (t : Toml.Table) (key code : String) : Except Malformation String :=
  match (t.lookup key).bind (·.asString?) with
  | some s => .ok s
  | none => .error (.currencyField key code)

def ofToml (v : Toml.Value) (code : String) : Except Malformation Currency := do
  match v.asTable? with
  | none => throw (.currency code)
  | some t => return ⟨← textField t "symbol" code, ← textField t "name" code⟩

end Currency

namespace Database

open Toml (Table)

def defaultLocaleOf (doc : Table) : Except Malformation String :=
  match doc.lookup "default_locale" with
  | none => .ok empty.defaultLocale
  | some v =>
    match v.asString? with
    | some tag => canonicalTag tag
    | none => .error .defaultLocale

def baseOf (doc : Table) : Except Malformation Settings :=
  match doc.lookup "base" with
  | none => .ok Settings.plain
  | some v => Settings.plain.ofToml v "base"

/-- The currencies of a document, by codes in capital letters. -/
def currenciesOf (doc : Table) : Except Malformation (Std.TreeMap String Currency) :=
  match doc.lookup "currencies" with
  | none => .ok ∅
  | some v =>
    match v.asTable? with
    | none => .error .currencies
    | some t => t.sorted.foldlM (fun known (code, v) =>
      return known.insert code.toUpper (← Currency.ofToml v code)) ∅

/-- The locales of a document over its base settings, by canonical tags. -/
def localesOf (doc : Table) (base : Settings) :
    Except Malformation (Std.TreeMap String Settings) :=
  match doc.lookup "locales" with
  | none => .ok ∅
  | some v =>
    match v.asTable? with
    | none => .error .locales
    | some t => t.sorted.foldlM (fun known (tag, v) => do
      let s ← base.ofToml v tag
      return known.insert (← canonicalTag tag) s) ∅

def ofTable (doc : Table) : Except Malformation Database := do
  let defaultLocale ← defaultLocaleOf doc
  let base ← baseOf doc
  let currencies ← currenciesOf doc
  let locales ← localesOf doc base
  return { defaultLocale, locales, currencies }

def ofDocument (doc : Toml.Value) : Except Malformation Database :=
  match doc.asTable? with
  | some t => ofTable t
  | none => .error .root

def ofToml (text : String) : Except LoadError Database :=
  match Toml.parse? text with
  | none => .error .notToml
  | some doc => (ofDocument doc).mapError .malformed

end Database

end Numeral
