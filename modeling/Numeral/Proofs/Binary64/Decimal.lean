import Numeral.Binary64.Shortest
import Numeral.Proofs.Binary64.Nearest
import Numeral.Proofs.Decimal.Normal

/-!
# Doubles and decimals

A double is nearest to a number with a sign if its magnitude is, and an infinity stands for the
numbers from the limit on (`Binary64.IsNearest`).  Natural numbers, integers and decimals are read
as the nearest double (`ofNat_eq_iff`, `isNearest_ofInt`, `isNearest_ofDecimal`): where the place of
the first digit settles a decimal alone, it is below half of the least magnitude or above the limit.

The shortest decimal of a magnitude is one to which the magnitude is nearest (`isNearest_shortest`),
so the two differ by a half of the last place of the magnitude at most.
-/

namespace Numeral

open Decimal (ofScaled)

/-! ## The number of a scaled decimal -/

namespace Decimal

theorem toRat_ofScaled (n : Nat) (e : Int) : (ofScaled n e).toRat = n * 10 ^ e := by
  have hNumber := fractionOf_mul_pow (digitsOf n)
  rw [ofDigits_digitsOf, length_digitsOf] at hNumber
  rw [ofScaled_eq_ofDigitsAt, toRat_ofDigitsAt, zpow_add₀ (by norm_num), zpow_natCast, ← mul_assoc,
    hNumber]

/-- The place of the first digit tells how great the number is. -/
theorem scaled_bounds {n : Nat} (hn : n ≠ 0) (e : Int) :
    10 ^ ((digitCount n : Int) + e - 1) ≤ (n : ℚ) * 10 ^ e ∧
      (n : ℚ) * 10 ^ e < 10 ^ ((digitCount n : Int) + e) := by
  have hNormal := isNormal_ofScaled n e
  have hPoint : (ofScaled n e).point = digitCount n + e := by rw [ofScaled, if_neg hn]
  have hPos : (0 : ℚ) < n * 10 ^ e := by
    have hCast : (0 : ℚ) < n := Nat.cast_pos.mpr (Nat.pos_of_ne_zero hn)
    positivity
  have hne : (ofScaled n e).digits ≠ [] := by
    intro hNil
    rw [← toRat_ofScaled, toRat_of_nil hNil] at hPos
    exact lt_irrefl _ hPos
  rw [← toRat_ofScaled, ← hPoint]
  exact ⟨hNormal.le_toRat hne, toRat_lt hNormal.belowTen⟩

end Decimal

namespace Magnitude

/-! ## The ends of the range -/

@[simp]
theorem toRat_zero : zero.toRat = 0 := toRat_eq_zero_iff.mpr rfl

/-- Below half of the least magnitude zero is nearest. -/
theorem isNearest_zero {q : ℚ} (hNonneg : 0 ≤ q) (h : 2 * q < 2 ^ (-1074 : Int)) :
    zero.IsNearest q := by
  intro y hy
  left
  have hLeast : (2 : ℚ) ^ (-1074 : Int) ≤ y.toRat := by
    have hOne : (1 : ℚ) ≤ y.significand := by
      have hne : y.significand ≠ 0 := by
        intro hZero
        have hIsZero : y.isZero = true := by rw [isZero, hZero, beq_self_eq_true]
        exact hy (toRat_injective ((toRat_eq_zero_iff.mpr hIsZero).trans toRat_zero.symm))
      exact_mod_cast Nat.one_le_iff_ne_zero.mpr hne
    have hPower : (2 : ℚ) ^ (-1074 : Int) ≤ 2 ^ y.exponent :=
      zpow_le_zpow_right₀ (by norm_num) y.isMagnitude.2.1
    rw [toRat_eq]
    exact hPower.trans (le_mul_of_one_le_left (by positivity) hOne)
  rw [toRat_zero, sub_zero, abs_of_nonneg hNonneg, abs_of_neg (by linarith)]
  linarith

theorem limit_le_two_zpow : limit ≤ 2 ^ (1024 : Int) := by
  have hSplit : (2 : ℚ) ^ (1024 : Int) = 2 ^ (53 : Int) * 2 ^ (971 : Int) := by
    rw [← zpow_add₀ two_ne_zero]
    rfl
  have hPos : (0 : ℚ) < 2 ^ (971 : Int) := by positivity
  rw [hSplit, limit]
  refine mul_le_mul_of_nonneg_right ?_ hPos.le
  norm_num

/-- Powers of two and of ten are compared as natural numbers. -/
theorem two_zpow_le_ten_zpow {a b : Nat} (h : pow2 a ≤ pow10 b) :
    (2 : ℚ) ^ (a : Int) ≤ 10 ^ (b : Int) := by
  rw [zpow_natCast, zpow_natCast, ← cast_pow2, ← cast_pow10]
  exact_mod_cast h

/-- A number with its first digit behind the places of the format is not even half of the least
magnitude. -/
theorem two_mul_lt_of_place_lt {q : ℚ} {place : Int} (hq : q < 10 ^ place) (h : place < -323) :
    2 * q < 2 ^ (-1074 : Int) := by
  have hTen : (10 : ℚ) ^ place ≤ 10 ^ (-324 : Int) := zpow_le_zpow_right₀ (by norm_num) (by omega)
  have hTwo : (10 : ℚ) ^ (-324 : Int) ≤ 2 ^ (-1075 : Int) := by
    rw [zpow_neg, zpow_neg]
    refine inv_anti₀ (by positivity) ?_
    exact two_zpow_le_ten_zpow (a := 1075) (b := 324) (by decide +kernel)
  have hHalf : (2 : ℚ) * 2 ^ (-1075 : Int) = 2 ^ (-1074 : Int) := by
    rw [mul_comm, ← zpow_add_one₀ two_ne_zero]
    rfl
  rw [← hHalf]
  exact mul_lt_mul_of_pos_left (hq.trans_le (hTen.trans hTwo)) two_pos

theorem lt_limit_of_two_mul_lt {q : ℚ} (h : 2 * q < 2 ^ (-1074 : Int)) : q < limit := by
  have hPower : (2 : ℚ) ^ (-1074 : Int) ≤ 2 ^ (971 : Int) :=
    zpow_le_zpow_right₀ (by norm_num) (by norm_num)
  have hPos : (0 : ℚ) < 2 ^ (971 : Int) := by positivity
  rw [limit]
  generalize (2 : ℚ) ^ (971 : Int) = p at *
  generalize (2 : ℚ) ^ (-1074 : Int) = r at *
  linarith

/-- A number with its first digit before the places of the format has no magnitude. -/
theorem limit_le_of_lt_place {q : ℚ} {place : Int} (hq : 10 ^ (place - 1) ≤ q) (h : 309 < place) :
    limit ≤ q :=
  calc limit ≤ 2 ^ (1024 : Int) := limit_le_two_zpow
    _ ≤ 10 ^ (309 : Int) := two_zpow_le_ten_zpow (a := 1024) (b := 309) (by decide +kernel)
    _ ≤ 10 ^ (place - 1) := zpow_le_zpow_right₀ (by norm_num) (by omega)
    _ ≤ q := hq

/-! ## Decimals -/

theorem cast_scaled_div (n : Nat) (e : Int) :
    ((n * pow10 e.toNat : Nat) : ℚ) / (pow10 (-e).toNat : Nat) = n * 10 ^ e := by
  rw [zpow_eq_div (by norm_num : (10 : ℚ) ≠ 0), Nat.cast_mul, cast_pow10, cast_pow10, mul_div_assoc]

/-- **A decimal is read as the nearest magnitude**, and none is found exactly from the limit on. -/
theorem ofDecimal?_eq (n : Nat) (e : Int) :
    (limit ≤ (n : ℚ) * 10 ^ e ∧ ofDecimal? n e = none) ∨
      ∃ x, ofDecimal? n e = some x ∧ (n : ℚ) * 10 ^ e < limit ∧ x.IsNearest (n * 10 ^ e) := by
  have hLimit : (0 : ℚ) < limit := zero.toRat_nonneg.trans_lt zero.toRat_lt_limit
  rw [ofDecimal?]
  by_cases hn : n = 0
  · right
    rw [if_pos (Or.inl hn), hn, Nat.cast_zero, zero_mul]
    exact ⟨zero, rfl, hLimit, toRat_zero ▸ zero.isNearest_toRat⟩
  obtain ⟨hLow, hHigh⟩ := Decimal.scaled_bounds hn e
  generalize (Decimal.digitCount n : Int) + e = place at *
  by_cases hSmall : place < -400
  · right
    have hLess := two_mul_lt_of_place_lt hHigh (by omega)
    rw [if_pos (Or.inr hSmall)]
    exact ⟨zero, rfl, lt_limit_of_two_mul_lt hLess, isNearest_zero (by positivity) hLess⟩
  rw [if_neg (by omega)]
  by_cases hGreat : 400 < place
  · left
    rw [if_pos hGreat]
    exact ⟨limit_le_of_lt_place hLow (by omega), rfl⟩
  · rw [if_neg hGreat]
    have hDen : 0 < pow10 (-e).toNat := Nat.pow_pos (by decide)
    rw [← cast_scaled_div]
    cases hNearest : nearest? (n * pow10 e.toNat) (pow10 (-e).toNat) with
    | none => exact Or.inl ⟨(nearest?_eq_none_iff hDen).mp hNearest, rfl⟩
    | some x => exact Or.inr ⟨x, rfl, (nearest?_eq_some_iff hDen).mp hNearest⟩

end Magnitude

/-! ## The nearest double -/

namespace Binary64

/-- The double is the nearest one to a number with a sign: its magnitude is nearest to it, or it is
an infinity and the number is not below the limit. -/
def IsNearest (negative : Bool) (q : ℚ) : Binary64 → Prop
  | nan => False
  | infinity n => n = negative ∧ Magnitude.limit ≤ q
  | finite n x => n = negative ∧ q < Magnitude.limit ∧ x.IsNearest q

variable {negative : Bool} {q : ℚ} {y z : Binary64}

/-- One double at most is nearest to a number. -/
theorem IsNearest.unique (hy : y.IsNearest negative q) (hz : z.IsNearest negative q) : y = z := by
  cases y with
  | nan => exact hy.elim
  | infinity n =>
    cases z with
    | nan => exact hz.elim
    | infinity m => rw [hy.1, hz.1]
    | finite m z => exact absurd hz.2.1 (not_lt.mpr hy.2)
  | finite n y =>
    cases z with
    | nan => exact hz.elim
    | infinity m => exact absurd hy.2.1 (not_lt.mpr hz.2)
    | finite m z => rw [hy.1, hz.1, hy.2.2.unique hz.2.2]

theorem isNearest_toRat (negative : Bool) (x : Magnitude) :
    IsNearest negative x.toRat (finite negative x) :=
  ⟨rfl, x.toRat_lt_limit, x.isNearest_toRat⟩

theorem isNearest_nearest (negative : Bool) (a : Nat) {b : Nat} (hb : 0 < b) :
    IsNearest negative ((a : ℚ) / b) (nearest negative a b) := by
  rw [nearest]
  cases hx : Magnitude.nearest? a b with
  | none => exact ⟨rfl, (Magnitude.nearest?_eq_none_iff hb).mp hx⟩
  | some x => exact ⟨rfl, (Magnitude.nearest?_eq_some_iff hb).mp hx⟩

/-- A decimal is read as the nearest double. -/
theorem isNearest_ofDecimal (negative : Bool) (n : Nat) (e : Int) :
    IsNearest negative (n * 10 ^ e) (ofDecimal negative n e) := by
  rw [ofDecimal]
  rcases Magnitude.ofDecimal?_eq n e with ⟨hLimit, hNone⟩ | ⟨x, hx, hLess, hNearest⟩
  · rw [hNone]
    exact ⟨rfl, hLimit⟩
  · rw [hx]
    exact ⟨rfl, hLess, hNearest⟩

theorem isNearest_ofNat (n : Nat) : IsNearest false (n : ℚ) (ofNat n) := by
  have h := isNearest_nearest false n one_pos
  rwa [Nat.cast_one, div_one] at h

/-- A natural number is read as the nearest double. -/
theorem ofNat_eq_iff {n : Nat} : ofNat n = y ↔ y.IsNearest false (n : ℚ) :=
  ⟨fun h => h ▸ isNearest_ofNat n, (isNearest_ofNat n).unique⟩

theorem isNearest_ofInt (n : Int) : IsNearest (n < 0) (n.natAbs : ℚ) (ofInt n) := by
  have h := isNearest_nearest (n < 0) n.natAbs one_pos
  rwa [Nat.cast_one, div_one] at h

end Binary64

/-! ## Shortest decimals -/

namespace Magnitude

variable {x : Magnitude}

theorem isNearest_of_readsBack {n : Nat} {e : Int} (h : x.readsBack n e = true) :
    (n : ℚ) * 10 ^ e < limit ∧ x.IsNearest (n * 10 ^ e) ∧
      |(n : ℚ) * 10 ^ e - x.toRat| ≤ 2 ^ x.exponent / 2 := by
  have hDen : 0 < pow10 (-e).toNat := Nat.pow_pos (by decide)
  have hNearest := beq_iff_eq.mp h
  rw [← cast_scaled_div]
  exact ⟨((nearest?_eq_some_iff hDen).mp hNearest).1, isNearest_of_nearest? hDen hNearest⟩

/-- What is found on a grid reads back. -/
theorem readsBack_of_onGrid? {tie : Tie} {n : Nat} {e : Int} (h : x.onGrid? tie e = some n) :
    x.readsBack n e = true := by
  rw [onGrid?] at h
  split at h
  · rename_i hBelow
    split at h
    · rename_i hAbove
      obtain rfl := Option.some.inj h
      exact (Bool.and_eq_true_iff.mp hAbove).1
    · obtain rfl := Option.some.inj h
      exact hBelow
  · split at h
    · rename_i hAbove
      obtain rfl := Option.some.inj h
      exact hAbove
    · cases h

/-- All the digits of a magnitude denote it. -/
theorem toRat_toDecimal (x : Magnitude) : x.toDecimal.toRat = x.toRat := by
  have hTen : ∀ k : Nat, pow10 k = pow2 k * 5 ^ k := fun k => Nat.mul_pow 2 5 k
  have hPos : (0 : ℚ) < x.den := x.cast_den_pos
  have hExact : x.num * pow10 (-x.exponent).toNat / x.den = x.num * 5 ^ (-x.exponent).toNat := by
    rw [hTen, Nat.mul_left_comm, ← den, Nat.mul_div_cancel_left _ x.den_pos]
  have hDen : (x.den : ℚ) * 5 ^ (-x.exponent).toNat = 10 ^ (-x.exponent).toNat := by
    rw [den, cast_pow2, ← mul_pow]
    norm_num
  rw [toDecimal, Decimal.toRat_ofScaled, hExact, toRat, eq_div_iff hPos.ne', zpow_neg, zpow_natCast,
    ← hDen]
  have hFive : ((5 : ℚ) ^ (-x.exponent).toNat) ≠ 0 := by positivity
  push_cast
  field_simp

/-- **The magnitude is nearest to its shortest decimal**, which is within a half of its last
place. -/
theorem isNearest_shortest (tie : Tie) (x : Magnitude) :
    (x.shortest tie).toRat < limit ∧ x.IsNearest (x.shortest tie).toRat ∧
      |(x.shortest tie).toRat - x.toRat| ≤ 2 ^ x.exponent / 2 := by
  have hSelf : ∀ q : ℚ, q = x.toRat →
      q < limit ∧ x.IsNearest q ∧ |q - x.toRat| ≤ 2 ^ x.exponent / 2 := by
    rintro q rfl
    refine ⟨x.toRat_lt_limit, x.isNearest_toRat, ?_⟩
    rw [sub_self, abs_zero]
    positivity
  unfold shortest
  split
  · rename_i hZero
    exact hSelf _ ((Decimal.toRat_of_nil rfl).trans (toRat_eq_zero_iff.mpr hZero).symm)
  · simp only []
    cases hf : (List.range' 1 17).findSome? _ with
    | none => exact hSelf _ x.toRat_toDecimal
    | some d =>
      obtain ⟨count, _, hd⟩ := List.exists_of_findSome?_eq_some hf
      obtain ⟨n, hn, rfl⟩ := Option.map_eq_some_iff.mp hd
      rw [Option.getD_some, Decimal.toRat_ofScaled]
      exact isNearest_of_readsBack (readsBack_of_onGrid? hn)

end Magnitude

/-- A double is nearest to its shortest decimal. -/
theorem Binary64.isNearest_shortest (negative : Bool) (tie : Tie) (x : Magnitude) :
    IsNearest negative (x.shortest tie).toRat (finite negative x) :=
  have h := x.isNearest_shortest tie
  ⟨rfl, h.1, h.2.1⟩

end Numeral
