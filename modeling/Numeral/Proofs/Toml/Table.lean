import Mathlib.Data.List.Basic
import Numeral.Proofs.Text.ByteOrder
import Numeral.Toml.Document

/-!
# Entries of TOML tables

A document is read as the table that it is written as unless a table in it has the reserved key in
front (`parse?_of_isPlain`).  Entries are visited in the order of the bytes of their keys
(`pairwise_sorted`), so that of the entries with keys of some kind the one with the greatest key
comes last (`last?_eq_some`).  Entries that are left out and values that are replaced do not change
where the others are found.
-/

namespace Numeral.Toml

/-- The table that a document is written as, in which no table stands for a date or time yet. -/
def written? (s : String) : Option Table := do
  let (ss, _) ← statements.run s.toList
  let d ← ss.foldlM Draft.add? Draft.empty
  return Node.entriesToTable d.entries

theorem parse?_eq (s : String) : parse? s = (written? s).bind fun t => (Value.table t).settle? := by
  rw [parse?, written?]
  cases statements.run s.toList with
  | none => rfl
  | some r =>
    show (r.1.foldlM Draft.add? Draft.empty).bind _ =
      ((r.1.foldlM Draft.add? Draft.empty).bind _).bind _
    cases r.1.foldlM Draft.add? Draft.empty with
    | none => rfl
    | some d => rfl

mutual

/-- Whether no table in the value has the reserved key in front. -/
def Value.isPlain : Value → Bool
  | .array items => areItemsPlain items
  | .table entries => (Table.reserved? entries).isNone && areEntriesPlain entries
  | _ => true

/-- Whether no table in the items has the reserved key in front. -/
def areItemsPlain : List Value → Bool
  | [] => true
  | v :: vs => v.isPlain && areItemsPlain vs

/-- Whether no table in the values of the entries has the reserved key in front. -/
def areEntriesPlain : List (String × Value) → Bool
  | [] => true
  | (_, v) :: es => v.isPlain && areEntriesPlain es

end

mutual

theorem settle?_of_isPlain : ∀ v : Value, v.isPlain = true → v.settle? = some v
  | .array items, h => by
    rw [Value.settle?, settleItems?_of_arePlain items h]
    rfl
  | .table entries, h => by
    rw [Value.isPlain, Bool.and_eq_true, Option.isNone_iff_eq_none] at h
    rw [Value.settle?, h.1, settleEntries?_of_arePlain entries h.2]
    rfl
  | .string _, _ => rfl
  | .integer _, _ => rfl
  | .float _, _ => rfl
  | .boolean _, _ => rfl
  | .datetime _, _ => rfl

theorem settleItems?_of_arePlain :
    ∀ vs : List Value, areItemsPlain vs = true → settleItems? vs = some vs
  | [], _ => rfl
  | v :: vs, h => by
    rw [areItemsPlain, Bool.and_eq_true] at h
    rw [settleItems?, settle?_of_isPlain v h.1, settleItems?_of_arePlain vs h.2]
    rfl

theorem settleEntries?_of_arePlain :
    ∀ es : List (String × Value), areEntriesPlain es = true → settleEntries? es = some es
  | [], _ => rfl
  | (_, v) :: es, h => by
    rw [areEntriesPlain, Bool.and_eq_true] at h
    rw [settleEntries?, settle?_of_isPlain v h.1, settleEntries?_of_arePlain es h.2]
    rfl

end

/-- A document without reserved keys is read as it is written. -/
theorem parse?_of_isPlain {s : String} {t : Table} (hs : written? s = some t)
    (ht : (Value.table t).isPlain = true) : parse? s = some (.table t) := by
  rw [parse?_eq, hs]
  exact settle?_of_isPlain _ ht

namespace Value

variable {v : Value}

theorem asString?_eq_some_iff {s : String} : v.asString? = some s ↔ v = .string s := by
  cases v <;> simp [asString?]

theorem asArray?_eq_some_iff {vs : List Value} : v.asArray? = some vs ↔ v = .array vs := by
  cases v <;> simp [asArray?]

theorem asTable?_eq_some_iff {t : Table} : v.asTable? = some t ↔ v = .table t := by
  cases v <;> simp [asTable?]

end Value

namespace Table

variable {t : Table} {p : String → Bool} {e : String × Value} {k : String}

/-! ### In the order of the keys -/

theorem mem_sorted_iff : e ∈ t.sorted ↔ e ∈ t := (List.mergeSort_perm t _).mem_iff

theorem pairwise_sorted (t : Table) :
    t.sorted.Pairwise fun e e' => bytes e.1 ≤ bytes e'.1 := by
  simp only [← isLE_compare_iff]
  apply List.pairwise_mergeSort
  · intro a b c hab hbc
    exact Std.TransCmp.isLE_trans hab hbc
  · intro a b
    have hSwap : compare b.1 a.1 = (compare a.1 b.1).swap := Std.OrientedCmp.eq_swap
    rw [hSwap]
    cases compare a.1 b.1 <;> rfl

/-- The last entry, in the order of the keys, of those whose keys are of a kind. -/
def last? (t : Table) (p : String → Bool) : Option (String × Value) :=
  t.sorted.reverse.find? fun e => p e.1

theorem last?_eq_none_iff : t.last? p = none ↔ ∀ e ∈ t, p e.1 = false := by
  rw [last?, List.find?_eq_none]
  simp only [List.mem_reverse, mem_sorted_iff, Bool.not_eq_true]

theorem isSome_last?_iff : (t.last? p).isSome = true ↔ ∃ e ∈ t, p e.1 = true := by
  rw [Option.isSome_iff_ne_none, Ne, last?_eq_none_iff]
  simp

/-- The last entry is one of those, and no other of them has a greater key. -/
theorem last?_eq_some (h : t.last? p = some e) :
    e ∈ t ∧ p e.1 = true ∧ ∀ e' ∈ t, p e'.1 = true → bytes e'.1 ≤ bytes e.1 := by
  rw [last?, List.find?_eq_some_iff_append] at h
  obtain ⟨hp, before, behind, hSplit, hBefore⟩ := h
  have hMem : ∀ e', e' ∈ before ++ e :: behind ↔ e' ∈ t := by
    intro e'
    rw [← hSplit, List.mem_reverse, mem_sorted_iff]
  have hOrder := t.pairwise_sorted
  rw [← List.pairwise_reverse, hSplit, List.pairwise_append, List.pairwise_cons] at hOrder
  refine ⟨(hMem e).mp (List.mem_append_right _ List.mem_cons_self), hp, ?_⟩
  intro e' he' hp'
  rcases List.mem_append.mp ((hMem e').mpr he') with he' | he'
  · have hNot := hBefore e' he'
    rw [hp'] at hNot
    cases hNot
  · rcases List.mem_cons.mp he' with rfl | he'
    · exact List.le_refl _
    · exact hOrder.2.1.1 e' he'

/-! ### Found under a key -/

/-- The entries under some of the keys. -/
def only (t : Table) (keys : List String) : Table := t.filter fun e => keys.contains e.1

/-- The table with other values under its keys. -/
def mapValues (t : Table) (f : String → Value → Value) : Table := t.map fun e => (e.1, f e.1 e.2)

theorem lookup_only {keys : List String} (hk : k ∈ keys) : (t.only keys).lookup k = t.lookup k := by
  induction t with
  | nil => rfl
  | cons e t ih =>
    rw [only, List.filter_cons]
    by_cases he : k = e.1
    · rw [← he, if_pos (List.contains_iff_mem.mpr hk), List.lookup_cons, List.lookup_cons, ← he,
        beq_self_eq_true]
    · have hSkip : ∀ es : List (String × Value), List.lookup k (e :: es) = List.lookup k es := by
        intro es
        rw [List.lookup_cons, beq_eq_false_iff_ne.mpr he]
      rw [hSkip t]
      split
      · rw [hSkip]
        exact ih
      · exact ih

theorem lookup_mapValues (t : Table) (f : String → Value → Value) (k : String) :
    (t.mapValues f).lookup k = (t.lookup k).map (f k) := by
  induction t with
  | nil => rfl
  | cons e t ih =>
    rw [mapValues, List.map_cons, List.lookup_cons, List.lookup_cons]
    by_cases he : k = e.1
    · rw [← he, beq_self_eq_true]
      rfl
    · rw [beq_eq_false_iff_ne.mpr he]
      exact ih

theorem sorted_mapValues (t : Table) (f : String → Value → Value) :
    (t.mapValues f).sorted = t.sorted.map fun e => (e.1, f e.1 e.2) := by
  symm
  apply List.map_mergeSort
  intro a _ b _
  rfl

end Table

end Numeral.Toml
