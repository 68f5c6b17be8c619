import Mathlib.Algebra.Order.Floor.Semifield
import Mathlib.Data.Rat.Floor
import Numeral.Binary64.Basic

/-!
# Doubles as rational numbers

A finite double stands for a rational number.  Its whole part is the floor of that number, and it
lies within bounds exactly when that number does (`wholeWithin?_eq`).
-/

namespace Numeral

namespace Magnitude

theorem den_pos (x : Magnitude) : 0 < x.den := Nat.pow_pos (by decide)

theorem num_eq_zero_iff {x : Magnitude} : x.num = 0 ↔ x.isZero = true := by
  have hPow : pow2 x.exponent.toNat ≠ 0 := Nat.ne_of_gt (Nat.pow_pos (by decide))
  rw [num, isZero, beq_iff_eq, Nat.mul_eq_zero]
  exact or_iff_left hPow

/-- The number that the magnitude stands for. -/
def toRat (x : Magnitude) : ℚ := x.num / x.den

theorem cast_den_pos (x : Magnitude) : (0 : ℚ) < x.den := Nat.cast_pos.mpr x.den_pos

theorem toRat_nonneg (x : Magnitude) : 0 ≤ x.toRat :=
  div_nonneg (Nat.cast_nonneg _) (Nat.cast_nonneg _)

theorem toRat_eq_zero_iff {x : Magnitude} : x.toRat = 0 ↔ x.isZero = true := by
  rw [toRat, div_eq_zero_iff, or_iff_left (ne_of_gt x.cast_den_pos), Nat.cast_eq_zero,
    num_eq_zero_iff]

theorem natCast_le_toRat_iff {x : Magnitude} {n : Nat} :
    (n : ℚ) ≤ x.toRat ↔ n * x.den ≤ x.num := by
  rw [toRat, le_div_iff₀ x.cast_den_pos]
  exact_mod_cast Iff.rfl

theorem toRat_le_natCast_iff {x : Magnitude} {n : Nat} :
    x.toRat ≤ n ↔ x.num ≤ n * x.den := by
  rw [toRat, div_le_iff₀ x.cast_den_pos]
  exact_mod_cast Iff.rfl

theorem floor_toRat (x : Magnitude) : ⌊x.toRat⌋₊ = x.floor := Nat.floor_div_eq_div x.num x.den

end Magnitude

namespace Binary64

/-- The number that a double stands for.  What is infinite or not a number stands for none. -/
def toRat? : Binary64 → Option ℚ
  | nan => none
  | infinity _ => none
  | finite negative x => some (if negative then -x.toRat else x.toRat)

/-- A double has a whole part within bounds exactly when it lies within them, and the whole part is
the floor. -/
theorem wholeWithin?_eq (min max : Nat) (x : Binary64) :
    x.wholeWithin? min max =
      x.toRat?.bind fun q => if (min : ℚ) ≤ q ∧ q ≤ max then some ⌊q⌋₊ else none := by
  cases x with
  | nan => rfl
  | infinity negative => rfl
  | finite negative x =>
    rw [wholeWithin?, toRat?, Option.bind_some]
    by_cases hNegative : negative = true ∧ x.isZero = false
    · -- A number below zero lies below every bound.
      obtain ⟨rfl, hZero⟩ := hNegative
      have hPos : 0 < x.toRat := by
        refine lt_of_le_of_ne x.toRat_nonneg fun h => ?_
        rw [Magnitude.toRat_eq_zero_iff.mp h.symm] at hZero
        cases hZero
      rw [if_pos (by simp [hZero]), if_pos rfl, if_neg]
      rintro ⟨hMin, -⟩
      have hZero' : (0 : ℚ) ≤ min := Nat.cast_nonneg min
      linarith
    · have hValue : (if negative = true then -x.toRat else x.toRat) = x.toRat := by
        cases negative with
        | false => rfl
        | true =>
          have hZero : x.isZero = true := by simpa using hNegative
          rw [if_pos rfl, Magnitude.toRat_eq_zero_iff.mpr hZero, neg_zero]
      have hBounds : (min ≤ x.toRat ∧ x.toRat ≤ max) ↔
          min * x.den ≤ x.num ∧ x.num ≤ max * x.den :=
        and_congr Magnitude.natCast_le_toRat_iff Magnitude.toRat_le_natCast_iff
      rw [if_neg (by simpa using hNegative), hValue, Magnitude.floor_toRat]
      by_cases hWithin : min * x.den ≤ x.num ∧ x.num ≤ max * x.den
      · rw [if_pos (hBounds.mpr hWithin), if_neg]
        simp only [Bool.or_eq_true, decide_eq_true_eq]
        omega
      · rw [if_neg fun h => hWithin (hBounds.mp h), if_pos]
        simp only [Bool.or_eq_true, decide_eq_true_eq]
        omega

theorem wholeWithin?_eq_some_iff {x : Binary64} {min max n : Nat} :
    x.wholeWithin? min max = some n ↔
      ∃ q, x.toRat? = some q ∧ ((min : ℚ) ≤ q ∧ q ≤ max) ∧ ⌊q⌋₊ = n := by
  rw [wholeWithin?_eq, Option.bind_eq_some_iff]
  simp only [Option.ite_none_right_eq_some, Option.some.injEq]

/-- The whole part of a number within bounds is within them too. -/
theorem wholeWithin?_bounds {x : Binary64} {min max n : Nat}
    (h : x.wholeWithin? min max = some n) : min ≤ n ∧ n ≤ max := by
  obtain ⟨q, -, hBounds, rfl⟩ := wholeWithin?_eq_some_iff.mp h
  exact ⟨Nat.le_floor hBounds.1, Nat.floor_le_of_le hBounds.2⟩

/-- A number that is within some bounds is within wider ones. -/
theorem wholeWithin?_mono {x : Binary64} {a b min max n : Nat}
    (h : x.wholeWithin? a b = some n) (hMin : min ≤ a) (hMax : b ≤ max) :
    x.wholeWithin? min max = some n := by
  obtain ⟨q, hq, ⟨hLow, hHigh⟩, hFloor⟩ := wholeWithin?_eq_some_iff.mp h
  have hMin : (min : ℚ) ≤ a := Nat.cast_le.mpr hMin
  have hMax : (b : ℚ) ≤ max := Nat.cast_le.mpr hMax
  exact wholeWithin?_eq_some_iff.mpr ⟨q, hq, ⟨hMin.trans hLow, hHigh.trans hMax⟩, hFloor⟩

end Binary64

end Numeral
