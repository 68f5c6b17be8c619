import Numeral.Proofs.Decimal.Rounding

/-!
# Normal decimals

A decimal is normal if its digits are below ten and neither the first nor the last of them is zero;
then the place of the first digit tells how great the number is (`le_toRat`, `toRat_lt`).  The
shortest decimal of every magnitude is normal, and rounding keeps decimals normal
(`Rounded.isNormal`).
-/

namespace Numeral.Decimal

/-- The digits are below ten and zero stands at neither end of them.  No digits stand for zero, with
a point that is not behind the first place. -/
structure IsNormal (d : Decimal) : Prop where
  belowTen : d.BelowTen
  head?_ne_zero : d.digits.head? ≠ some 0
  getLast?_ne_zero : d.digits.getLast? ≠ some 0
  point_nonpos : d.digits = [] → d.point ≤ 0

theorem isNormal_zero : zero.IsNormal where
  belowTen := belowTen_zero
  head?_ne_zero := fun h => by cases h
  getLast?_ne_zero := fun h => by cases h
  point_nonpos := fun _ => le_refl 0

/-! ### Zeros at the end -/

theorem getLast?_trimZeros_ne_zero (ds : List Nat) : (trimZeros ds).getLast? ≠ some 0 := by
  intro h
  rw [trimZeros, List.getLast?_reverse] at h
  have hHead := List.head?_dropWhile_not (· == 0) ds.reverse
  rw [h] at hHead
  cases hHead

theorem head?_trimZeros_ne_zero {ds : List Nat} (h : ds.head? ≠ some 0) :
    (trimZeros ds).head? ≠ some 0 := by
  obtain ⟨n, hn⟩ := exists_trimZeros_append ds
  cases ht : trimZeros ds with
  | nil => exact fun h => by cases h
  | cons e es =>
    rw [hn, ht] at h
    exact h

theorem length_trimZeros_le (ds : List Nat) : (trimZeros ds).length ≤ ds.length := by
  obtain ⟨n, hn⟩ := exists_trimZeros_append ds
  have hLength := congrArg List.length hn
  rw [List.length_append] at hLength
  omega

theorem isNormal_ofDigitsAt {ds : List Nat} (h : ∀ d ∈ ds, d < 10) (hHead : ds.head? ≠ some 0)
    (point : Int) : (ofDigitsAt ds point).IsNormal := by
  have hBelow := belowTen_ofDigitsAt h point
  unfold ofDigitsAt at hBelow ⊢
  split
  · exact isNormal_zero
  · rename_i hne
    rw [if_neg hne] at hBelow
    exact ⟨hBelow, head?_trimZeros_ne_zero hHead, getLast?_trimZeros_ne_zero ds,
      fun hNil => absurd (List.isEmpty_iff.mpr hNil) hne⟩

theorem head?_digitsOf_ne_zero (n : Nat) : (digitsOf n).head? ≠ some 0 := by
  fun_induction digitsOf n with
  | case1 => exact fun h => by cases h
  | case2 n hn ih =>
    intro h
    cases hd : digitsOf (n / 10) with
    | nil =>
      -- a single digit is the number itself
      have hZero := ofDigits_digitsOf (n / 10)
      rw [hd] at hZero
      rw [hd, List.nil_append, List.head?_cons, Option.some.injEq] at h
      change 0 = n / 10 at hZero
      omega
    | cons e es =>
      rw [hd] at h ih
      exact ih h

theorem ofScaled_eq_ofDigitsAt (n : Nat) (e : Int) :
    ofScaled n e = ofDigitsAt (digitsOf n) (digitCount n + e) := by
  have hNil : trimZeros [] = [] := rfl
  rw [ofScaled, ofDigitsAt]
  by_cases hn : n = 0
  · subst hn
    rw [if_pos rfl, digitsOf, if_pos rfl, hNil, if_pos List.isEmpty_nil]
  · rw [if_neg hn, if_neg]
    intro hEmpty
    -- only zeros would be trimmed away to nothing
    have hValue := fractionOf_trimZeros (digitsOf n)
    have hNumber := fractionOf_mul_pow (digitsOf n)
    rw [← hValue, List.isEmpty_iff.mp hEmpty, fractionOf_nil, zero_mul,
      ofDigits_digitsOf] at hNumber
    exact hn (by exact_mod_cast hNumber.symm)

theorem isNormal_ofScaled (n : Nat) (e : Int) : (ofScaled n e).IsNormal := by
  rw [ofScaled_eq_ofDigitsAt]
  exact isNormal_ofDigitsAt (fun _ => lt_ten_of_mem_digitsOf) (head?_digitsOf_ne_zero n) _

theorem isNormal_shortest (tie : Tie) (x : Magnitude) : (x.shortest tie).IsNormal := by
  obtain ⟨n, e, h⟩ := exists_shortest_eq tie x
  rw [h]
  exact isNormal_ofScaled n e

theorem point_shortest_of_nil {tie : Tie} {x : Magnitude} (h : (x.shortest tie).digits = []) :
    (x.shortest tie).point = 0 := by
  obtain ⟨n, e, hx⟩ := exists_shortest_eq tie x
  rw [hx, ofScaled_eq_ofDigitsAt, ofDigitsAt] at h ⊢
  split
  · rfl
  · rename_i hne
    rw [if_neg hne] at h
    exact absurd (List.isEmpty_iff.mpr h) hne

/-! ### Rounding -/

variable {d : Decimal}

/-- What stands before a cut has digits below ten, and does not start with a zero. -/
theorem IsNormal.of_cut (h : d.IsNormal) {kept rest : List Nat} (hCut : d.digits = kept ++ rest) :
    (∀ e ∈ kept, e < 10) ∧ kept.head? ≠ some 0 := by
  constructor
  · intro e he
    exact h.belowTen e (hCut ▸ List.mem_append_left rest he)
  · intro hZero
    obtain ⟨es, rfl⟩ := List.head?_eq_some_iff.mp hZero
    exact h.head?_ne_zero (by rw [hCut, List.cons_append, List.head?_cons])

theorem IsNormal.roundAt (h : d.IsNormal) {keep : Int} (hPoint : keep < 0 → d.point ≤ 0) :
    (d.roundAt keep).IsNormal := by
  have hRound := d.roundsTo_roundAt keep
  generalize d.roundAt keep = r at hRound ⊢
  cases hRound with
  | before hNeg =>
    exact ⟨belowTen_zero, isNormal_zero.head?_ne_zero, isNormal_zero.getLast?_ne_zero,
      fun _ => hPoint hNeg⟩
  | behind _ _ => exact h
  | down hCut _ _ =>
    obtain ⟨hBelow, hHead⟩ := h.of_cut hCut
    exact isNormal_ofDigitsAt hBelow hHead _
  | up hCut _ _ hNext =>
    obtain ⟨hBelow, hHead⟩ := h.of_cut hCut
    exact isNormal_ofDigitsAt (hNext.lt_ten hBelow) (hNext.head?_ne_zero hHead) _

theorem IsNormal.roundToFraction (h : d.IsNormal) (max : Nat) :
    (d.roundToFraction max).IsNormal := by
  refine h.roundAt ?_
  omega

theorem IsNormal.roundToSignificant (h : d.IsNormal) (max : Nat) :
    (d.roundToSignificant max).IsNormal := by
  refine h.roundAt ?_
  omega

/-- **Rounding keeps decimals normal**, however often it is done. -/
theorem Rounded.isNormal (h : Rounded d) : d.IsNormal := by
  induction h with
  | shortest x =>
    cases x with
    | nan => exact isNormal_zero
    | infinity negative => exact isNormal_zero
    | finite negative x => exact isNormal_shortest .up x
  | toFraction h max ih => exact ih.roundToFraction max
  | toSignificant h max ih => exact ih.roundToSignificant max

/-! ### The size of the number -/

theorem toRat_lt (h : d.BelowTen) : d.toRat < 10 ^ d.point := by
  have hPos : (0 : ℚ) < 10 ^ d.point := by positivity
  have hOne := mul_lt_mul_of_pos_right (fractionOf_lt_one h) hPos
  rwa [one_mul] at hOne

/-- The first digit stands at the first place behind the point. -/
theorem IsNormal.le_toRat (h : d.IsNormal) (hne : d.digits ≠ []) :
    10 ^ (d.point - 1) ≤ d.toRat := by
  obtain ⟨e, es, hes⟩ := List.exists_cons_of_ne_nil hne
  have he : e ≠ 0 := by
    rintro rfl
    exact h.head?_ne_zero (by rw [hes, List.head?_cons])
  have hOne : (1 : ℚ) ≤ e := by exact_mod_cast Nat.one_le_iff_ne_zero.mpr he
  have hNonneg := fractionOf_nonneg es
  have hTenth : 1 / 10 ≤ fractionOf d.digits := by
    rw [hes, fractionOf_cons]
    linarith
  have hPos : (0 : ℚ) < 10 ^ d.point := by positivity
  have hScaled := mul_le_mul_of_nonneg_right hTenth hPos.le
  rwa [zpow_sub_one₀ (by norm_num), mul_comm, ← one_div]

theorem IsNormal.toRat_pos (h : d.IsNormal) (hne : d.digits ≠ []) : 0 < d.toRat := by
  have hPos : (0 : ℚ) < 10 ^ (d.point - 1) := by positivity
  exact hPos.trans_le (h.le_toRat hne)

/-- Only zero has no digits. -/
theorem IsNormal.toRat_eq_zero_iff (h : d.IsNormal) : d.toRat = 0 ↔ d.digits = [] := by
  constructor
  · intro hZero
    by_contra hne
    exact (h.toRat_pos hne).ne' hZero
  · exact toRat_of_nil

/-- The first digit stands before the place of every power of ten that is not greater. -/
theorem IsNormal.zpow_le_iff (h : d.IsNormal) (hne : d.digits ≠ []) {k : Int} :
    10 ^ k ≤ d.toRat ↔ k < d.point := by
  constructor
  · intro hLe
    exact (zpow_lt_zpow_iff_right₀ (by norm_num)).mp (hLe.trans_lt (toRat_lt h.belowTen))
  · intro hLess
    exact (zpow_le_zpow_right₀ (by norm_num) (by omega)).trans (h.le_toRat hne)

end Numeral.Decimal
