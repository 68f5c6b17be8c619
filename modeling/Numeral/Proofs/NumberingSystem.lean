import Numeral.Conventions.Reading
import Numeral.Decimal.Digits
import Numeral.NumberingSystem
import Numeral.Proofs.Text.Span
import Mathlib.Tactic.IntervalCases

/-!
# Digits of numbering systems

Each numbering system writes the ASCII digits with ten characters of its own and reads these back
(`toAscii_fromAscii`).  A character that is a digit of no numbering system is *inert*: it is written
and read as it stands, whatever the numbering system.
-/

namespace Numeral

namespace NumberingSystem

theorem mem_all (s : NumberingSystem) : s ∈ all := by
  cases s <;> decide

/-- An identifier names a numbering system only by its name. -/
theorem ofName?_eq_some_iff {name : String} {s : NumberingSystem} :
    ofName? name = some s ↔ s.name = name := by
  constructor
  · intro h
    rw [ofName?] at h
    have hFound := List.find?_some h
    exact beq_iff_eq.mp hFound
  · rintro rfl
    exact ofName?_name s

theorem mem_latn_digits_iff {c : Char} : c ∈ latn.digits ↔ c.isDigit = true := by
  constructor
  · intro h
    have hAll : ∀ d ∈ latn.digits, d.isDigit = true := by decide
    exact hAll c h
  · intro h
    have hc : c = Char.ofNat c.toNat := (Char.ofNat_toNat c).symm
    simp only [Char.isDigit, ge_iff_le, Bool.and_eq_true, decide_eq_true_eq] at h
    have hLow : 48 ≤ c.toNat := h.1
    have hHigh : c.toNat ≤ 57 := h.2
    rw [hc]
    interval_cases c.toNat <;> decide

/-- A digit is written with the character that stands at its place in the numbering system. -/
theorem getElem?_digits (s : NumberingSystem) {d : Nat} (h : d < 10) :
    s.digits[d]? = some (s.fromAscii (Nat.digitChar d)) := by
  have hAll : ∀ t ∈ all, ∀ e < 10, t.digits[e]? = some (t.fromAscii (Nat.digitChar e)) := by decide
  exact hAll s s.mem_all d h

/-- The digit at a place of the numbering system is read as the ASCII digit of this place. -/
theorem toAscii_of_getElem? {s : NumberingSystem} {d : Nat} {c : Char} (h : s.digits[d]? = some c) :
    s.toAscii c = Nat.digitChar d := by
  have hAll : ∀ t ∈ all, ∀ e < 10, t.digits[e]?.map t.toAscii = some (Nat.digitChar e) := by decide
  have hLess : d < 10 := s.length_digits ▸ (List.getElem?_eq_some_iff.mp h).1
  have hRead := hAll s s.mem_all d hLess
  rw [h] at hRead
  exact Option.some.inj hRead

/-- A character that is no digit of the numbering system is read as it stands. -/
theorem toAscii_of_not_mem {s : NumberingSystem} {c : Char} (h : c ∉ s.digits) :
    s.toAscii c = c := by
  rw [toAscii, List.idxOf?_eq_none_iff.mpr h]

/-- Each numbering system reads back the digits that it writes. -/
theorem toAscii_fromAscii (s : NumberingSystem) {c : Char} (h : c.isDigit = true) :
    s.toAscii (s.fromAscii c) = c := by
  have hAll : ∀ t ∈ all, ∀ d ∈ latn.digits, t.toAscii (t.fromAscii d) = d := by decide
  exact hAll s s.mem_all c (mem_latn_digits_iff.mpr h)

/-- Digits are ink, and no marks of text direction. -/
theorem ink_of_mem_digits {s : NumberingSystem} {c : Char} (h : c ∈ s.digits) :
    Text.isWhiteSpace c = false ∧ isDirectionMark c = false := by
  have hAll : ∀ t ∈ all, ∀ d ∈ t.digits,
      Text.isWhiteSpace d = false ∧ isDirectionMark d = false := by
    decide
  exact hAll s s.mem_all c h

theorem fromAscii_mem_digits (s : NumberingSystem) {c : Char} (h : c.isDigit = true) :
    s.fromAscii c ∈ s.digits := by
  have hAll : ∀ t ∈ all, ∀ d ∈ latn.digits, t.fromAscii d ∈ t.digits := by decide
  exact hAll s s.mem_all c (mem_latn_digits_iff.mpr h)

end NumberingSystem

open NumberingSystem

/-- The character is a digit of no numbering system. -/
def IsInert (c : Char) : Prop := ∀ s ∈ NumberingSystem.all, c ∉ s.digits

instance (c : Char) : Decidable (IsInert c) :=
  inferInstanceAs (Decidable (∀ s ∈ NumberingSystem.all, c ∉ s.digits))

namespace IsInert

variable {c : Char}

theorem isDigit (h : IsInert c) : c.isDigit = false := by
  rw [Bool.eq_false_iff]
  intro hd
  exact h latn (mem_all latn) (mem_latn_digits_iff.mpr hd)

theorem fromAscii (h : IsInert c) (s : NumberingSystem) : s.fromAscii c = c := by
  rw [NumberingSystem.fromAscii, h.isDigit, if_neg Bool.false_ne_true]

theorem toAscii (h : IsInert c) (s : NumberingSystem) : s.toAscii c = c :=
  toAscii_of_not_mem (h s s.mem_all)

/-- No letter of ASCII is a digit. -/
theorem of_isAlpha (h : c.isAlpha = true) : IsInert c := by
  have hAll : ∀ s ∈ NumberingSystem.all, ∀ d ∈ s.digits, d.isAlpha = false := by decide
  intro s hs hc
  have hDigit := hAll s hs c hc
  rw [h] at hDigit
  cases hDigit

end IsInert

end Numeral
