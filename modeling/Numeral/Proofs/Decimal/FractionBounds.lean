import Numeral.Proofs.Decimal.Normal

/-!
# Bounds on fraction digits

Rounding to a number of fraction digits and filling up with zeros keeps both bounds
(`admits_withFractionDigits`), as long as the number reaches the last place that may be shown or the
place behind it.  A smaller one is negligible: it has zeros as far as its first digit, and these
zeros are what is shown (`withFractionDigits_of_lt`).
-/

namespace Numeral

/-- Fraction digits are within the bounds, and at their end stand no zeros but those that fill up to
the least number of them. -/
structure DigitRange.Admits (range : DigitRange) (fraction : List Nat) : Prop where
  minimum_le : range.minimum ≤ fraction.length
  le_maximum : fraction.length ≤ range.maximum
  getLast?_ne_zero : range.minimum < fraction.length → fraction.getLast? ≠ some 0

namespace Decimal

variable {d : Decimal} {range : DigitRange}

/-- The number is not zero, but it has zeros at so many places and at one more. -/
def Negligible (d : Decimal) (places : Nat) : Prop :=
  0 < d.toRat ∧ d.toRat < 1 / 10 ^ (places + 1)

theorem IsNormal.negligible_iff (h : d.IsNormal) (hPoint : d.digits = [] → d.point = 0)
    (places : Nat) : d.Negligible places ↔ d.point + places < 0 := by
  have hPower : (1 : ℚ) / 10 ^ (places + 1) = 10 ^ (-(places : Int) - 1) := by
    rw [one_div, ← zpow_natCast, ← zpow_neg]
    congr 1
    push_cast
    ring
  rw [Negligible, hPower]
  by_cases hNil : d.digits = []
  · have := hPoint hNil
    rw [toRat_of_nil hNil]
    constructor
    · rintro ⟨hPos, -⟩
      exact absurd hPos (lt_irrefl 0)
    · omega
  · rw [and_iff_right (h.toRat_pos hNil), ← not_le, h.zpow_le_iff hNil]
    omega

/-! ### The two lists of digits -/

theorem IsNormal.head?_integerDigits_ne_zero (h : d.IsNormal) :
    d.integerDigits.head? ≠ some 0 := by
  unfold integerDigits
  split
  · exact fun h => by cases h
  · rename_i hPoint
    cases hd : d.digits with
    | nil => exact absurd (h.point_nonpos hd) hPoint
    | cons e es =>
      have hHead := h.head?_ne_zero
      rw [hd] at hHead
      obtain ⟨n, hn⟩ : ∃ n, d.point.toNat = n + 1 := ⟨d.point.toNat - 1, by omega⟩
      rw [hn]
      exact hHead

theorem length_fractionDigits (d : Decimal) :
    d.fractionDigits.length = (d.digits.length - d.point).toNat := by
  unfold fractionDigits
  split
  · rw [List.length_nil]
    omega
  · rw [List.length_append, List.length_replicate, List.length_drop]
    omega

theorem IsNormal.getLast?_fractionDigits_ne_zero (h : d.IsNormal)
    (hPoint : d.digits = [] → d.point = 0) : d.fractionDigits.getLast? ≠ some 0 := by
  unfold fractionDigits
  split
  · exact fun h => by cases h
  · rename_i hLength
    cases hd : d.digits with
    | nil =>
      rw [hd, List.length_nil] at hLength
      have := hPoint hd
      omega
    | cons e es =>
      have hDrop : d.digits.drop d.point.toNat ≠ [] := by
        rw [ne_eq, List.drop_eq_nil_iff, hd, List.length_cons]
        rw [hd, List.length_cons] at hLength
        omega
      rw [← hd, List.getLast?_append_of_ne_nil _ hDrop, List.getLast?_drop, if_neg]
      · exact h.getLast?_ne_zero
      · intro hAll
        exact hDrop (List.drop_eq_nil_iff.mpr hAll)

/-! ### Rounding -/

/-- The last digit stands at one of so many places behind the point, and zero has its point at the
first place. -/
def EndsWithin (d : Decimal) (places : Int) : Prop :=
  (d.digits = [] → d.point = 0) ∧ (d.digits ≠ [] → d.digits.length - d.point ≤ places)

theorem endsWithin_ofDigitsAt {ds : List Nat} {point places : Int}
    (h : ds.length - point ≤ places) : (ofDigitsAt ds point).EndsWithin places := by
  have hLength := length_trimZeros_le ds
  unfold ofDigitsAt
  split
  · exact ⟨fun _ => rfl, fun h => absurd rfl h⟩
  · rename_i hne
    refine ⟨fun h => absurd (List.isEmpty_iff.mpr h) hne, fun _ => ?_⟩
    show ((trimZeros ds).length : Int) - point ≤ places
    omega

theorem endsWithin_roundAt {keep : Int} (hKeep : 0 ≤ keep) (hPoint : d.digits = [] → d.point = 0) :
    (d.roundAt keep).EndsWithin (keep - d.point) := by
  have hRound := d.roundsTo_roundAt keep
  generalize d.roundAt keep = r at hRound ⊢
  cases hRound with
  | before hNeg => omega
  | behind _ hLength =>
    refine ⟨hPoint, fun _ => ?_⟩
    omega
  | down _ hCut _ => exact endsWithin_ofDigitsAt (by omega)
  | up _ hCut _ hNext =>
    have hPlace := hNext.place
    exact endsWithin_ofDigitsAt (by omega)

theorem EndsWithin.length_fractionDigits_le {places : Nat} (h : d.EndsWithin places) :
    d.fractionDigits.length ≤ places := by
  rw [length_fractionDigits]
  by_cases hNil : d.digits = []
  · rw [hNil, List.length_nil, h.1 hNil]
    omega
  · have := h.2 hNil
    omega

theorem getLast?_padRight_ne_zero {n : Nat} {ds : List Nat} (h : ds.getLast? ≠ some 0)
    (hn : n < (padRight n ds).length) : (padRight n ds).getLast? ≠ some 0 := by
  have hLength : n - ds.length = 0 := by
    rw [padRight, List.length_append, List.length_replicate] at hn
    omega
  rw [padRight, hLength, List.replicate_zero, List.append_nil]
  exact h

/-- **Rounding and filling up keep the bounds** on the fraction digits. -/
theorem IsNormal.admits_withFractionDigits (h : d.IsNormal) (hPoint : d.digits = [] → d.point = 0)
    (hRange : range.minimum ≤ range.maximum) (hReach : 0 ≤ d.point + range.maximum) :
    range.Admits (d.withFractionDigits range).2 := by
  have hEnds : (d.roundToFraction range.maximum).EndsWithin range.maximum := by
    have hRound := endsWithin_roundAt hReach hPoint
    rwa [add_sub_cancel_left] at hRound
  have hLength := hEnds.length_fractionDigits_le
  have hLast := (h.roundToFraction range.maximum).getLast?_fractionDigits_ne_zero hEnds.1
  refine ⟨le_length_padRight _ _, ?_, getLast?_padRight_ne_zero hLast⟩
  show (padRight range.minimum (d.roundToFraction range.maximum).fractionDigits).length ≤ _
  rw [padRight, List.length_append, List.length_replicate]
  omega

/-- A number with its first digit behind the last place by more than one is shown as zeros, up to
that digit. -/
theorem withFractionDigits_of_lt (hRange : range.minimum ≤ range.maximum)
    (hShort : d.point + range.maximum < 0) :
    d.withFractionDigits range = ([], List.replicate (-d.point).toNat 0) := by
  have hRounded : d.roundToFraction range.maximum = ⟨[], d.point⟩ := by
    rw [roundToFraction, roundAt, if_pos hShort]
  have hInteger : (⟨[], d.point⟩ : Decimal).integerDigits = [] := by
    rw [integerDigits, if_pos]
    show d.point ≤ 0
    omega
  have hFraction : (⟨[], d.point⟩ : Decimal).fractionDigits =
      List.replicate (-d.point).toNat 0 := by
    rw [fractionDigits, if_neg]
    · simp
    · show ¬ ((0 : Nat) : Int) ≤ d.point
      omega
  have hPad : range.minimum - (-d.point).toNat = 0 := by omega
  rw [withFractionDigits, hRounded]
  simp only [hInteger, hFraction, padRight, List.length_replicate, hPad, List.replicate_zero,
    List.append_nil]

end Decimal

end Numeral
