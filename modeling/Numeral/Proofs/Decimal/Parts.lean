import Numeral.Proofs.Decimal.FractionBounds

/-!
# The two parts of a decimal

The integer digits and the fraction digits are the digits of the decimal, with zeros before them for
a number below one tenth and zeros behind them for one that ends before its point
(`integerDigits_append_fractionDigits`).  Read with the point between them they denote the decimal
(`valueOf_parts`).
-/

namespace Numeral.Decimal

/-- The number that integer digits and fraction digits denote. -/
def valueOf (integer fraction : List Nat) : ℚ := ofDigits integer + fractionOf fraction

variable {d : Decimal}

theorem padRight_of_le {n : Nat} {ds : List Nat} (h : n ≤ ds.length) : padRight n ds = ds := by
  rw [padRight, Nat.sub_eq_zero_of_le h, List.replicate_zero, List.append_nil]

theorem length_padRight (n : Nat) (ds : List Nat) : (padRight n ds).length = max n ds.length := by
  rw [padRight, List.length_append, List.length_replicate]
  omega

theorem length_integerDigits (d : Decimal) : d.integerDigits.length = d.point.toNat := by
  unfold integerDigits
  split
  · rw [List.length_nil]
    omega
  · rw [length_padRight, List.length_take]
    omega

/-- The two parts hold the digits, with zeros on one side of them at most. -/
theorem integerDigits_append_fractionDigits (d : Decimal) :
    d.integerDigits ++ d.fractionDigits =
      List.replicate (-d.point).toNat 0 ++ padRight d.point.toNat d.digits := by
  unfold integerDigits fractionDigits
  by_cases hPoint : d.point ≤ 0
  · have hZero : d.point.toNat = 0 := by omega
    rw [if_pos hPoint, List.nil_append, hZero, padRight_of_le (Nat.zero_le _), List.drop_zero]
    split
    · rename_i hLength
      have hNil : d.digits = [] := List.length_eq_zero_iff.mp (by omega)
      have hPlace : (-d.point).toNat = 0 := by omega
      rw [hNil, hPlace]
      rfl
    · rfl
  · have hZero : (-d.point).toNat = 0 := by omega
    rw [if_neg hPoint, hZero, List.replicate_zero, List.nil_append, List.nil_append]
    split
    · rename_i hLength
      rw [List.append_nil, List.take_of_length_le (by omega)]
    · rename_i hLength
      have hTake : d.point.toNat ≤ (d.digits.take d.point.toNat).length := by
        rw [List.length_take]
        omega
      rw [padRight_of_le hTake, padRight_of_le (by omega), List.take_append_drop]

theorem fractionOf_zeros_append (n : Nat) (ds : List Nat) :
    fractionOf (List.replicate n 0 ++ ds) * 10 ^ n = fractionOf ds := by
  have h := fractionOf_append (List.replicate n 0) ds
  rwa [List.length_replicate, ofDigits_replicate_zero, Nat.cast_zero, zero_add] at h

theorem fractionOf_padRight (n : Nat) (ds : List Nat) :
    fractionOf (padRight n ds) = fractionOf ds :=
  fractionOf_append_zeros ds _

/-- **The two parts denote the decimal.** -/
theorem valueOf_parts (d : Decimal) : valueOf d.integerDigits d.fractionDigits = d.toRat := by
  have hParts := fractionOf_append d.integerDigits d.fractionDigits
  have hZeros := fractionOf_zeros_append (-d.point).toNat (padRight d.point.toNat d.digits)
  rw [integerDigits_append_fractionDigits, length_integerDigits] at hParts
  rw [fractionOf_padRight] at hZeros
  have hPower : (10 : ℚ) ^ d.point * 10 ^ (-d.point).toNat = 10 ^ d.point.toNat := by
    rw [← zpow_natCast, ← zpow_natCast, ← zpow_add₀ (by norm_num)]
    congr 1
    omega
  rw [valueOf, ← hParts, toRat, ← hZeros, ← hPower]
  ring

/-! ### Whole part and fraction of a normal decimal -/

theorem digitsOf_zero : digitsOf 0 = [] := by
  rw [digitsOf, if_pos rfl]

/-- Digits below ten that do not start with a zero are those of the number that they denote. -/
theorem digitsOf_ofDigits {ds : List Nat} (h : ∀ e ∈ ds, e < 10) (hHead : ds.head? ≠ some 0) :
    digitsOf (ofDigits ds) = ds := by
  induction ds using List.reverseRecOn with
  | nil => exact digitsOf_zero
  | append_singleton ds e ih =>
    obtain ⟨hds, he⟩ := List.forall_mem_append.mp h
    have hTen : e < 10 := he e List.mem_cons_self
    have hHead' : ds.head? ≠ some 0 := by
      cases ds with
      | nil => exact fun hNone => by cases hNone
      | cons f fs => exact hHead
    have hDigits := ih hds hHead'
    have hne : 10 * ofDigits ds + e ≠ 0 := by
      intro hZero
      obtain ⟨hRest, rfl⟩ : ofDigits ds = 0 ∧ e = 0 := by omega
      rw [hRest, digitsOf_zero] at hDigits
      subst hDigits
      exact hHead rfl
    have hDiv : (10 * ofDigits ds + e) / 10 = ofDigits ds := by omega
    have hMod : (10 * ofDigits ds + e) % 10 = e := by omega
    rw [ofDigits_concat, digitsOf, if_neg hne, hDiv, hMod, hDigits]

/-- The fraction digits denote what the number has beyond its whole part. -/
theorem BelowTen.fract_toRat (h : d.BelowTen) :
    Int.fract d.toRat = fractionOf d.fractionDigits := by
  have hNonneg := fractionOf_nonneg d.fractionDigits
  have hOne := fractionOf_lt_one h.fractionDigits
  rw [← valueOf_parts, valueOf, Int.fract_natCast_add]
  exact Int.fract_eq_self.mpr ⟨hNonneg, hOne⟩

/-- The integer digits are the digits of the whole part. -/
theorem IsNormal.integerDigits_eq (h : d.IsNormal) : d.integerDigits = digitsOf ⌊d.toRat⌋₊ := by
  have hNonneg := fractionOf_nonneg d.fractionDigits
  have hOne := fractionOf_lt_one h.belowTen.fractionDigits
  have hFloor : ⌊d.toRat⌋₊ = ofDigits d.integerDigits := by
    rw [← valueOf_parts, valueOf, Nat.floor_eq_iff (by positivity)]
    exact ⟨by linarith, by linarith⟩
  rw [hFloor, digitsOf_ofDigits h.belowTen.integerDigits h.head?_integerDigits_ne_zero]

end Numeral.Decimal
