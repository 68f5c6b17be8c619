import Numeral.Proofs.Conventions.Legible

/-!
# The digits that are written

Numbers are composed with ASCII digits and put into the digits of the numbering system at the end.
The same text comes of composing them with the native digits from the start
(`magnitudeText_eq_nativeText`): every integer digit and every fraction digit is one of those.
-/

namespace Numeral

/-- Digits as text of the numbering system. -/
def NumberingSystem.digitText (s : NumberingSystem) (ds : List Nat) : List Char :=
  ds.map fun d => s.digits.getD d '0'

theorem NumberingSystem.map_digitText (s : NumberingSystem) {ds : List Nat}
    (h : ∀ d ∈ ds, d < 10) : (Decimal.digitText ds).map s.fromAscii = s.digitText ds := by
  rw [Decimal.digitText, List.map_map, digitText]
  apply List.map_congr_left
  intro d hd
  rw [List.getD_eq_getElem?_getD, getElem?_digits s (h d hd)]
  rfl

theorem NumberingSystem.mem_digits_of_mem_digitText {s : NumberingSystem} {ds : List Nat}
    (h : ∀ d ∈ ds, d < 10) : ∀ ch ∈ s.digitText ds, ch ∈ s.digits := by
  intro ch hch
  rw [← s.map_digitText h] at hch
  obtain ⟨e, he, rfl⟩ := List.mem_map.mp hch
  exact s.fromAscii_mem_digits (Decimal.isDigit_of_mem_digitText h e he)

/-- The digits of a numbering system are read back as ASCII digits. -/
theorem NumberingSystem.map_toAscii_digitText (s : NumberingSystem) {ds : List Nat}
    (h : ∀ d ∈ ds, d < 10) : (s.digitText ds).map s.toAscii = Decimal.digitText ds := by
  rw [← s.map_digitText h, List.map_map]
  refine (List.map_congr_left fun ch hch => ?_).trans (List.map_id _)
  exact s.toAscii_fromAscii (Decimal.isDigit_of_mem_digitText h ch hch)

namespace Conventions

/-- A magnitude as text in the digits of a numbering system, without affixes. -/
def nativeText (c : Conventions) (s : NumberingSystem) (x : Magnitude) : List Char :=
  let integer := s.digitText (Decimal.padLeft c.config.minimumIntegerDigits (c.shownDigits x).1)
  let fraction := s.digitText (c.shownDigits x).2
  (if c.config.useGrouping then groupDigits (s.fromAscii c.settings.group) integer else integer) ++
    if fraction.isEmpty then [] else s.fromAscii c.settings.decimal :: fraction

theorem map_integerText (c : Conventions) {ds : List Nat} (h : ∀ d ∈ ds, d < 10) :
    (c.integerText ds).map c.numberingSystem.fromAscii =
      let text := c.numberingSystem.digitText (Decimal.padLeft c.config.minimumIntegerDigits ds)
      if c.config.useGrouping then
        groupDigits (c.numberingSystem.fromAscii c.settings.group) text
      else text := by
  rw [integerText]
  cases c.config.useGrouping with
  | true =>
    simp only [if_true]
    rw [map_groupDigits, NumberingSystem.map_digitText _ (Decimal.lt_ten_padLeft h)]
  | false => exact NumberingSystem.map_digitText _ (Decimal.lt_ten_padLeft h)

theorem map_fractionText (c : Conventions) {ds : List Nat} (h : ∀ d ∈ ds, d < 10) :
    (c.fractionText ds).map c.numberingSystem.fromAscii =
      if (c.numberingSystem.digitText ds).isEmpty then []
      else c.numberingSystem.fromAscii c.settings.decimal :: c.numberingSystem.digitText ds := by
  cases ds with
  | nil => rfl
  | cons d ds =>
    show (c.settings.decimal :: Decimal.digitText (d :: ds)).map c.numberingSystem.fromAscii = _
    rw [List.map_cons, NumberingSystem.map_digitText _ h]
    rfl

/-- **Numbers are written with native digits.** -/
theorem magnitudeText_eq_nativeText (c : Conventions) (x : Magnitude) :
    c.magnitudeText x = c.nativeText c.numberingSystem x := by
  obtain ⟨hInteger, hFraction⟩ := c.shownDigits_lt_ten x
  show (c.integerText (c.shownDigits x).1 ++ c.fractionText (c.shownDigits x).2).map _ = _
  rw [List.map_append, map_integerText c hInteger, map_fractionText c hFraction]
  rfl

end Conventions

end Numeral
