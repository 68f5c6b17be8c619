import Mathlib.Algebra.Order.Field.Basic
import Mathlib.Algebra.Order.Field.Power
import Mathlib.Data.List.TakeWhile
import Mathlib.Data.Rat.Cast.Order
import Mathlib.Tactic.Linarith
import Mathlib.Tactic.LinearCombination
import Mathlib.Tactic.Positivity
import Numeral.Proofs.Decimal.Digits

/-!
# The number that a decimal stands for

The digits `d₀, d₁, …` are read behind a point as `0.d₀d₁…` (`fractionOf`), and a decimal stands for
this fraction, scaled by the power of ten of its point (`toRat`).

* `fractionOf_append`: cutting the digits parts the scaled number into the natural number before
  the cut and the fraction behind it, which is below one (`fractionOf_lt_one`).
* `toRat_ofDigitsAt`: zeros at the end do not change the number.
-/

namespace Numeral.Decimal

/-- The fraction `0.d₀d₁…`. -/
def fractionOf : List Nat → ℚ
  | [] => 0
  | d :: ds => (d + fractionOf ds) / 10

/-- The number that the decimal stands for. -/
def toRat (d : Decimal) : ℚ := fractionOf d.digits * 10 ^ d.point

@[simp]
theorem fractionOf_nil : fractionOf [] = 0 := rfl

theorem fractionOf_cons (d : Nat) (ds : List Nat) :
    fractionOf (d :: ds) = (d + fractionOf ds) / 10 := rfl

theorem fractionOf_nonneg (ds : List Nat) : 0 ≤ fractionOf ds := by
  induction ds with
  | nil => exact le_refl 0
  | cons d ds ih =>
    rw [fractionOf_cons]
    positivity

theorem fractionOf_lt_one {ds : List Nat} (h : ∀ d ∈ ds, d < 10) : fractionOf ds < 1 := by
  induction ds with
  | nil => exact one_pos
  | cons d ds ih =>
    have hd : (d : ℚ) ≤ 9 := by exact_mod_cast Nat.le_of_lt_succ (h d List.mem_cons_self)
    have hds := ih fun e he => h e (List.mem_cons_of_mem d he)
    rw [fractionOf_cons, div_lt_one (by norm_num)]
    linarith

/-- Before a cut stands a natural number, and behind it a fraction. -/
theorem fractionOf_append (as bs : List Nat) :
    fractionOf (as ++ bs) * 10 ^ as.length = ofDigits as + fractionOf bs := by
  induction as with
  | nil => simp [ofDigits]
  | cons a as ih =>
    rw [List.cons_append, fractionOf_cons, List.length_cons, pow_succ, ofDigits_cons]
    push_cast
    linear_combination ih

theorem fractionOf_mul_pow (ds : List Nat) : fractionOf ds * 10 ^ ds.length = ofDigits ds := by
  have h := fractionOf_append ds []
  rwa [List.append_nil, fractionOf_nil, add_zero] at h

/-- The digits of a fraction, read as one number and scaled down. -/
theorem readDigits_div {ds : List Nat} (h : ∀ d ∈ ds, d < 10) :
    (readDigits (digitText ds) : ℚ) / 10 ^ (digitText ds).length = fractionOf ds := by
  rw [readDigits_digitText h, length_digitText, ← fractionOf_mul_pow, mul_div_cancel_right₀]
  positivity

theorem fractionOf_append_zeros (ds : List Nat) (n : Nat) :
    fractionOf (ds ++ List.replicate n 0) = fractionOf ds := by
  have hZeros : fractionOf (List.replicate n 0) = 0 := by
    induction n with
    | zero => rfl
    | succ n ih => rw [List.replicate_succ, fractionOf_cons, ih, Nat.cast_zero, add_zero, zero_div]
  induction ds with
  | nil => exact hZeros
  | cons d ds ih => rw [List.cons_append, fractionOf_cons, fractionOf_cons, ih]

/-! ### Zeros at the end -/

theorem exists_trimZeros_append (ds : List Nat) :
    ∃ n, ds = trimZeros ds ++ List.replicate n 0 := by
  have hZeros : ∀ e ∈ ds.reverse.takeWhile (· == 0), e = 0 := by
    intro e he
    have hZero := List.mem_takeWhile_imp (p := (· == 0)) he
    exact beq_iff_eq.mp hZero
  have hParts := congrArg List.reverse
    (List.takeWhile_append_dropWhile (p := (· == 0)) (l := ds.reverse))
  rw [List.reverse_append, List.reverse_reverse, List.eq_replicate_of_mem hZeros,
    List.reverse_replicate] at hParts
  exact ⟨_, hParts.symm⟩

theorem fractionOf_trimZeros (ds : List Nat) : fractionOf (trimZeros ds) = fractionOf ds := by
  obtain ⟨n, hn⟩ := exists_trimZeros_append ds
  rw [← fractionOf_append_zeros (trimZeros ds) n, ← hn]

/-- Without digits the number is zero, wherever the point is. -/
theorem toRat_of_nil {d : Decimal} (h : d.digits = []) : d.toRat = 0 := by
  rw [toRat, h, fractionOf_nil, zero_mul]

/-- Zeros at the end do not change the number. -/
theorem toRat_ofDigitsAt (ds : List Nat) (point : Int) :
    (ofDigitsAt ds point).toRat = fractionOf ds * 10 ^ point := by
  rw [← fractionOf_trimZeros, ofDigitsAt]
  split
  · rename_i h
    rw [List.isEmpty_iff.mp h, toRat_of_nil rfl, fractionOf_nil, zero_mul]
  · rfl

end Numeral.Decimal
