import Numeral.Locale.Load
import Numeral.Proofs.Outcome
import Numeral.Proofs.Toml.Table

/-!
# Layers of settings

Settings that are read over others have the fields of the table that they are read from, and where
it has none those of the others, each field for itself (`layered_of_ofToml`).  What has been read in
layers is read over further ones in layers again (`Layered.cons`).  Of several entries that name the
same thing the last one counts, in the order of their keys (`getElem?_of_foldlM_sorted`).
-/

namespace Numeral

open Toml (Table Value)

/-! ### Entries under one name -/

/-- The entries of the table under a key, none if there is no table. -/
def Toml.Table.entriesAt (t : Table) (key : String) : Table :=
  ((t.lookup key).bind (·.asTable?)).getD []

section Insertions

variable {β ε : Type} {R : β → String × Value → Prop} {names : String → String → Bool}
  {step : Std.TreeMap String β → String × Value → Except ε (Std.TreeMap String β)}
  {m m' : Std.TreeMap String β}

/-- What stands under a name after entries have been inserted in a row is what the last entry with
that name gives, and what stood there before if there is none. -/
theorem getElem?_of_foldlM
    (hStep : ∀ m e m', step m e = .ok m' →
      ∃ k b, (∀ l, names l e.1 = (k == l)) ∧ R b e ∧ m.insert k b = m')
    {es : List (String × Value)} (h : es.foldlM step m = .ok m') (l : String) :
    (es.reverse.find? fun e => names l e.1).elim (m'[l]? = m[l]?) fun e =>
      ∃ b, m'[l]? = some b ∧ R b e := by
  induction es generalizing m with
  | nil =>
    rw [List.foldlM_nil] at h
    rw [← pure_eq_ok_iff.mp h]
    rfl
  | cons e es ih =>
    rw [List.foldlM_cons] at h
    obtain ⟨m₁, hFirst, hRest⟩ := bind_eq_ok_iff.mp h
    obtain ⟨k, b, hName, hb, rfl⟩ := hStep m e m₁ hFirst
    have hRest := ih hRest
    rw [List.reverse_cons, List.find?_append]
    cases hFound : es.reverse.find? fun e => names l e.1 with
    | some e' =>
      rw [hFound] at hRest
      exact hRest
    | none =>
      rw [hFound, Option.elim_none, Std.TreeMap.getElem?_insert] at hRest
      rw [Option.none_or, List.find?_singleton, hName l]
      by_cases hk : k = l
      · subst hk
        rw [if_pos Std.ReflCmp.compare_self] at hRest
        rw [beq_self_eq_true, if_pos rfl]
        exact ⟨b, hRest, hb⟩
      · rw [if_neg fun hc => hk (Std.LawfulEqCmp.eq_of_compare hc)] at hRest
        rw [beq_eq_false_iff_ne.mpr hk, if_neg Bool.false_ne_true]
        exact hRest

theorem getElem?_of_foldlM_sorted (names : String → String → Bool) (R : β → String × Value → Prop)
    (hStep : ∀ m e m', step m e = .ok m' →
      ∃ k b, (∀ l, names l e.1 = (k == l)) ∧ R b e ∧ m.insert k b = m')
    {t : Table} (h : t.sorted.foldlM step m = .ok m') (l : String) :
    (t.last? (names l)).elim (m'[l]? = m[l]?) fun e => ∃ b, m'[l]? = some b ∧ R b e :=
  getElem?_of_foldlM hStep h l

/-- The entries of a table that may be absent are inserted into what there was before. -/
theorem foldlM_sorted_entriesAt {t : Table} {key : String} {fault : ε}
    (h : (match t.lookup key with
      | none => .ok m
      | some v =>
        match v.asTable? with
        | none => .error fault
        | some es => es.sorted.foldlM step m) = Except.ok m') :
    (t.entriesAt key).sorted.foldlM step m = .ok m' := by
  rw [Table.entriesAt]
  cases hv : t.lookup key with
  | none =>
    rw [hv] at h
    rw [Option.bind_none, Option.getD_none, Table.sorted, List.mergeSort_nil]
    exact h
  | some v =>
    rw [hv] at h
    rw [Option.bind_some]
    cases hEntries : v.asTable? with
    | none => simp [hEntries] at h
    | some es =>
      simp only [hEntries] at h
      exact h

end Insertions

/-- Whether a key spells the code of a currency. -/
def spellsCode (code key : String) : Bool := key.toUpper == code

/-! ### Fields -/

/-- The field is what is read from the value that has been found for it, and what it was before if
none has been found. -/
def Inherits {α : Type} (read : Value → Option α) (found : Option Value) (base a : α) : Prop :=
  found.elim (a = base) fun v => read v = some a

section Inherits

variable {α : Type} {read : Value → Option α} {found found' : Option Value} {base a plain : α}

/-- What a field was before may have been found in its turn. -/
theorem Inherits.trans (h : Inherits read found base a) (hBase : Inherits read found' plain base) :
    Inherits read (found.or found') plain a := by
  cases found with
  | none =>
    rw [Option.none_or]
    obtain rfl : a = base := h
    exact hBase
  | some v => exact h

theorem Inherits.eq_of_bind {b : α} (h : Inherits read found base a)
    (hb : found.bind read = some b) : a = b := by
  cases found with
  | none => cases hb
  | some v => exact Option.some.inj (h.symm.trans hb)

end Inherits

namespace Settings

/-- The first character of a text. -/
def firstChar? (v : Value) : Option Char := v.asString?.bind (·.toList.head?)

/-- The texts of a list. -/
def texts? (v : Value) : Option (List String) := v.asArray?.bind (·.mapM (·.asString?))

/-- The symbol of a currency in the settings of a locale: the last one under a spelling of its
code. -/
def symbol? (t : Table) (code : String) : Option Value :=
  ((t.entriesAt "currency_symbols").last? (spellsCode code)).map Prod.snd

/-- The settings are those of the first of the tables that tells, field by field, and the given ones
where none of the tables does. -/
structure Layered (layers : List Table) (plain s : Settings) : Prop where
  decimal : Inherits firstChar? (layers.findSome? (·.lookup "decimal")) plain.decimal s.decimal
  group : Inherits firstChar? (layers.findSome? (·.lookup "group")) plain.group s.group
  minus : Inherits (·.asString?) (layers.findSome? (·.lookup "minus")) plain.minus s.minus
  percent : Inherits (·.asString?) (layers.findSome? (·.lookup "percent")) plain.percent s.percent
  nan : Inherits (·.asString?) (layers.findSome? (·.lookup "nan")) plain.nan s.nan
  infinity :
    Inherits (·.asString?) (layers.findSome? (·.lookup "infinity")) plain.infinity s.infinity
  percentPattern : Inherits (·.asString?) (layers.findSome? (·.lookup "percent_pattern"))
    plain.percentPattern s.percentPattern
  currencyPattern : Inherits (·.asString?) (layers.findSome? (·.lookup "currency_pattern"))
    plain.currencyPattern s.currencyPattern
  numberingSystems : Inherits texts? (layers.findSome? (·.lookup "numbering_systems"))
    plain.numberingSystems s.numberingSystems
  currencySymbols : ∀ code, Inherits (·.asString?.map some) (layers.findSome? (symbol? · code))
    plain.currencySymbols[code]? s.currencySymbols[code]?

variable {t : Table} {key locale : String} {layers : List Table} {plain base s : Settings}

theorem layered_nil (plain : Settings) : Layered [] plain plain :=
  ⟨rfl, rfl, rfl, rfl, rfl, rfl, rfl, rfl, rfl, fun _ => rfl⟩

theorem Layered.cons (h : Layered [t] base s) (hBase : Layered layers plain base) :
    Layered (t :: layers) plain s := by
  have hFound : ∀ find : Table → Option Value,
      (t :: layers).findSome? find = ([t].findSome? find).or (layers.findSome? find) := by
    intro find
    rw [findSome?_cons_eq_or, List.findSome?_singleton]
  constructor
  all_goals simp only [hFound]
  · exact h.decimal.trans hBase.decimal
  · exact h.group.trans hBase.group
  · exact h.minus.trans hBase.minus
  · exact h.percent.trans hBase.percent
  · exact h.nan.trans hBase.nan
  · exact h.infinity.trans hBase.infinity
  · exact h.percentPattern.trans hBase.percentPattern
  · exact h.currencyPattern.trans hBase.currencyPattern
  · exact h.numberingSystems.trans hBase.numberingSystems
  · intro code
    exact (h.currencySymbols code).trans (hBase.currencySymbols code)

/-- What is read under a key, or taken from elsewhere if there is none. -/
theorem inherits_lookup {α : Type} {read : Value → Option α} {get : Value → Except Malformation α}
    {b a : α} (hGet : ∀ v, get v = .ok a → read v = some a)
    (h : (match t.lookup key with | none => .ok b | some v => get v) = Except.ok a) :
    Inherits read ([t].findSome? (·.lookup key)) b a := by
  rw [List.findSome?_singleton]
  cases hv : t.lookup key with
  | none =>
    rw [hv] at h
    cases h
    rfl
  | some v =>
    rw [hv] at h
    exact hGet v h

theorem inherits_charField {c c' : Char} (h : charField t key locale c = .ok c') :
    Inherits firstChar? ([t].findSome? (·.lookup key)) c c' := by
  refine inherits_lookup ?_ h
  intro v hv
  rw [firstChar?]
  split at hv
  · cases hv
    assumption
  · cases hv

theorem inherits_textField {x x' : String} (h : textField t key locale x = .ok x') :
    Inherits (·.asString?) ([t].findSome? (·.lookup key)) x x' := by
  refine inherits_lookup ?_ h
  intro v hv
  split at hv
  · cases hv
    assumption
  · cases hv

theorem inherits_numberingSystemsField {names names' : List String}
    (h : numberingSystemsField t locale names = .ok names') :
    Inherits texts? ([t].findSome? (·.lookup "numbering_systems")) names names' := by
  refine inherits_lookup ?_ h
  intro v hv
  rw [texts?]
  split at hv
  · cases hv
  · cases hv
  · rename_i hItems
    rw [hItems]
    refine mapM_eq_some_of_mapM ?_ hv
    intro w name hw
    split at hw
    · cases hw
      assumption
    · cases hw

theorem inherits_currencySymbolsField {known known' : Std.TreeMap String String}
    (h : currencySymbolsField t locale known = .ok known') (code : String) :
    Inherits (·.asString?.map some) ([t].findSome? (symbol? · code)) known[code]?
      known'[code]? := by
  have hFound := getElem?_of_foldlM_sorted spellsCode (fun symbol e => e.2.asString? = some symbol)
    ?_ (foldlM_sorted_entriesAt h) code
  · rw [List.findSome?_singleton, symbol?]
    cases hLast : (t.entriesAt "currency_symbols").last? (spellsCode code) with
    | none =>
      rw [hLast] at hFound
      exact hFound
    | some e =>
      rw [hLast] at hFound
      obtain ⟨symbol, hKnown, he⟩ := hFound
      rw [hKnown, Option.map_some]
      show e.2.asString?.map some = _
      rw [he]
      rfl
  · intro m e m' hm
    cases hText : e.2.asString? with
    | none => simp [hText] at hm
    | some symbol =>
      simp only [hText] at hm
      cases hm
      exact ⟨e.1.toUpper, symbol, fun _ => rfl, rfl, rfl⟩

theorem layered_of_ofToml {v : Value} (h : base.ofToml v locale = .ok s) :
    ∃ t, v = .table t ∧ Layered [t] base s := by
  rw [ofToml] at h
  cases hv : v.asTable? with
  | none =>
    rw [hv] at h
    cases h
  | some t =>
    simp only [hv] at h
    obtain ⟨decimal, hDecimal, h⟩ := bind_eq_ok_iff.mp h
    obtain ⟨group, hGroup, h⟩ := bind_eq_ok_iff.mp h
    obtain ⟨minus, hMinus, h⟩ := bind_eq_ok_iff.mp h
    obtain ⟨percent, hPercent, h⟩ := bind_eq_ok_iff.mp h
    obtain ⟨nan, hNan, h⟩ := bind_eq_ok_iff.mp h
    obtain ⟨infinity, hInfinity, h⟩ := bind_eq_ok_iff.mp h
    obtain ⟨percentPattern, hPercentPattern, h⟩ := bind_eq_ok_iff.mp h
    obtain ⟨currencyPattern, hCurrencyPattern, h⟩ := bind_eq_ok_iff.mp h
    obtain ⟨numberingSystems, hNumberingSystems, h⟩ := bind_eq_ok_iff.mp h
    obtain ⟨currencySymbols, hCurrencySymbols, h⟩ := bind_eq_ok_iff.mp h
    refine ⟨t, Value.asTable?_eq_some_iff.mp hv, ?_⟩
    rw [← pure_eq_ok_iff.mp h]
    exact
      { decimal := inherits_charField hDecimal
        group := inherits_charField hGroup
        minus := inherits_textField hMinus
        percent := inherits_textField hPercent
        nan := inherits_textField hNan
        infinity := inherits_textField hInfinity
        percentPattern := inherits_textField hPercentPattern
        currencyPattern := inherits_textField hCurrencyPattern
        numberingSystems := inherits_numberingSystemsField hNumberingSystems
        currencySymbols := inherits_currencySymbolsField hCurrencySymbols }

end Settings

end Numeral
