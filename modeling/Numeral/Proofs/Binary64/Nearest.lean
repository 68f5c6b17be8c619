import Mathlib.Algebra.Order.Field.Power
import Mathlib.Data.Nat.Log
import Mathlib.Tactic.Linarith
import Mathlib.Tactic.NormNum
import Mathlib.Tactic.Positivity
import Numeral.Binary64.Nearest
import Numeral.Proofs.Binary64.Rational

/-!
# The nearest double

A magnitude is nearest to a number if every other one is farther away, or equally far and odd
while it is even itself (`Magnitude.IsNearest`).  So at most one magnitude is nearest, a magnitude
is nearest to itself, and nearest magnitudes stand in the order of their numbers.

Rounding to the nearest double does what its name says (`nearest?_eq_some_iff`): it scales the
number so that its whole part has the bits of a significand (`exponentFor_spec`), and takes the
nearest integer, the even one of two (`roundHalfEven_spec`).  The magnitudes of the same or a
greater exponent are integers at that scale, and those of a smaller exponent are all below it
(`Scaled.isNearest`).  There is none from the middle between the greatest magnitude and the power of
two above it on (`nearest?_eq_none_iff`).
-/

namespace Numeral

@[simp]
theorem cast_pow2 (n : Nat) : ((pow2 n : Nat) : ℚ) = 2 ^ n := by
  rw [pow2, Nat.pow_eq, Nat.cast_pow, Nat.cast_ofNat]

@[simp]
theorem cast_pow10 (n : Nat) : ((pow10 n : Nat) : ℚ) = 10 ^ n := by
  rw [pow10, Nat.pow_eq, Nat.cast_pow, Nat.cast_ofNat]

/-- A power with an integer exponent as a fraction of natural powers. -/
theorem zpow_eq_div {b : ℚ} (hb : b ≠ 0) (e : Int) : b ^ e = b ^ e.toNat / b ^ (-e).toNat := by
  have hne : b ^ (-e).toNat ≠ 0 := pow_ne_zero _ hb
  rw [eq_div_iff hne, ← zpow_natCast, ← zpow_natCast, ← zpow_add₀ hb]
  congr 1
  omega

/-! ## Rounding to an integer -/

/-- A half lies in the middle of the two bits. -/
theorem abs_half_sub_bit (n : Nat) : |(1 / 2 : ℚ) - (n % 2 : Nat)| = 1 / 2 := by
  rcases Nat.mod_two_eq_zero_or_one n with h | h
  · rw [h, Nat.cast_zero, sub_zero, abs_of_pos one_half_pos]
  · rw [h, Nat.cast_one, abs_of_neg (by norm_num)]
    norm_num

/-- The rounded quotient is within a half of the exact one, and even if it is a half away. -/
theorem roundHalfEven_spec (a : Nat) {b : Nat} (hb : 0 < b) :
    |(a : ℚ) / b - roundHalfEven a b| ≤ 1 / 2 ∧
      (|(a : ℚ) / b - roundHalfEven a b| = 1 / 2 → roundHalfEven a b % 2 = 0) := by
  have hb' : (0 : ℚ) < b := Nat.cast_pos.mpr hb
  have hDiv : (a : ℚ) / b = (a / b : Nat) + (a % b : Nat) / b := by
    rw [div_eq_iff hb'.ne', add_mul, div_mul_cancel₀ _ hb'.ne']
    exact_mod_cast (Nat.div_add_mod' a b).symm
  have hNonneg : (0 : ℚ) ≤ (a % b : Nat) / b := by positivity
  have hOne : ((a % b : Nat) : ℚ) / b < 1 :=
    (div_lt_one hb').mpr (by exact_mod_cast Nat.mod_lt a hb)
  have hHalf : ((a % b : Nat) : ℚ) / b < 1 / 2 ↔ 2 * (a % b) < b := by
    rw [div_lt_div_iff₀ hb' two_pos, one_mul, mul_comm]
    exact_mod_cast Iff.rfl
  have hHalf' : 1 / 2 < ((a % b : Nat) : ℚ) / b ↔ b < 2 * (a % b) := by
    rw [div_lt_div_iff₀ two_pos hb', one_mul, mul_comm]
    exact_mod_cast Iff.rfl
  rw [hDiv, roundHalfEven]
  generalize a / b = q at *
  generalize ((a % b : Nat) : ℚ) / b = r at *
  generalize a % b = n at *
  split
  · rename_i hLow
    have hLow := hHalf.mpr hLow
    rw [add_sub_cancel_left, abs_of_nonneg hNonneg]
    exact ⟨hLow.le, fun h => absurd h hLow.ne⟩
  · rename_i hLow
    split
    · rename_i hHigh
      have hHigh := hHalf'.mpr hHigh
      have hAbs : |(q : ℚ) + r - (q + 1 : Nat)| = 1 - r := by
        rw [abs_of_nonpos (by push_cast; linarith)]
        push_cast
        ring
      rw [hAbs]
      exact ⟨by linarith, fun h => by linarith⟩
    · rename_i hHigh
      have hTie : r = 1 / 2 :=
        le_antisymm (not_lt.mp fun h => hHigh (hHalf'.mp h)) (not_lt.mp fun h => hLow (hHalf.mp h))
      have hEven : (q + q % 2) % 2 = 0 := by omega
      rw [hTie, Nat.cast_add, add_sub_add_left_eq_sub, abs_half_sub_bit]
      exact ⟨le_rfl, fun _ => hEven⟩

namespace Magnitude

/-! ## Magnitudes as numbers -/

theorem toRat_eq (x : Magnitude) : x.toRat = x.significand * 2 ^ x.exponent := by
  rw [toRat, num, den, zpow_eq_div two_ne_zero, Nat.cast_mul, cast_pow2, cast_pow2, mul_div_assoc]

theorem significand_lt (x : Magnitude) : (x.significand : ℚ) < 2 ^ 53 := by
  have h := x.isMagnitude.1
  rw [← cast_pow2]
  exact_mod_cast h

theorem le_significand {x : Magnitude} (h : x.exponent ≠ -1074) :
    (2 : ℚ) ^ 52 ≤ x.significand := by
  have hFull := x.isMagnitude.2.2.2.resolve_right h
  rw [← cast_pow2]
  exact_mod_cast hFull

/-- The magnitudes of a smaller exponent are all below those that have a full significand. -/
theorem toRat_lt_of_exponent_lt {x : Magnitude} {e : Int} (h : x.exponent < e) :
    x.toRat < 2 ^ 52 * 2 ^ e := by
  have hStep : (2 : ℚ) ^ x.exponent ≤ 2 ^ (e - 1) := zpow_le_zpow_right₀ (by norm_num) (by omega)
  calc x.toRat = x.significand * 2 ^ x.exponent := x.toRat_eq
    _ < 2 ^ 53 * 2 ^ x.exponent := mul_lt_mul_of_pos_right x.significand_lt (by positivity)
    _ ≤ 2 ^ 53 * 2 ^ (e - 1) := mul_le_mul_of_nonneg_left hStep (by positivity)
    _ = 2 ^ 52 * 2 ^ e := by
      rw [zpow_sub_one₀ two_ne_zero]
      ring

theorem le_toRat {x : Magnitude} (h : x.exponent ≠ -1074) : 2 ^ 52 * 2 ^ x.exponent ≤ x.toRat := by
  rw [toRat_eq]
  exact mul_le_mul_of_nonneg_right (le_significand h) (by positivity)

theorem exponent_le_of_toRat_eq {x y : Magnitude} (h : x.toRat = y.toRat) :
    y.exponent ≤ x.exponent := by
  by_contra hLess
  have hNot : y.exponent ≠ -1074 := by
    have := x.isMagnitude.2.1
    omega
  have hBelow := toRat_lt_of_exponent_lt (not_le.mp hLess)
  have hAbove := le_toRat hNot
  linarith

/-- Different magnitudes are different numbers. -/
theorem toRat_injective : Function.Injective toRat := by
  intro x y h
  have hExponent : x.exponent = y.exponent :=
    le_antisymm (exponent_le_of_toRat_eq h.symm) (exponent_le_of_toRat_eq h)
  have hPos : (2 : ℚ) ^ y.exponent ≠ 0 := by positivity
  rw [toRat_eq, toRat_eq, hExponent] at h
  have hSignificand : x.significand = y.significand := by exact_mod_cast mul_right_cancel₀ hPos h
  cases x
  cases y
  simp only at hExponent hSignificand
  subst hExponent hSignificand
  rfl

/-! ## What is nearest -/

/-- Every other magnitude is farther away from the number, or equally far and odd while this one is
even. -/
def IsNearest (x : Magnitude) (q : ℚ) : Prop :=
  ∀ y : Magnitude, y ≠ x → |q - x.toRat| < |q - y.toRat| ∨
    |q - x.toRat| = |q - y.toRat| ∧ x.significand % 2 = 0 ∧ y.significand % 2 = 1

theorem IsNearest.abs_sub_le {x : Magnitude} {q : ℚ} (h : x.IsNearest q) (y : Magnitude) :
    |q - x.toRat| ≤ |q - y.toRat| := by
  by_cases hy : y = x
  · rw [hy]
  · rcases h y hy with hLess | ⟨hEq, -⟩
    · exact hLess.le
    · exact hEq.le

/-- One magnitude at most is nearest to a number. -/
theorem IsNearest.unique {x y : Magnitude} {q : ℚ} (hx : x.IsNearest q) (hy : y.IsNearest q) :
    x = y := by
  by_contra hne
  rcases hx y (Ne.symm hne) with hLess | ⟨-, hEven, -⟩
  · exact absurd (hy.abs_sub_le x) (not_le.mpr hLess)
  · rcases hy x hne with hLess | ⟨-, -, hOdd⟩
    · exact absurd (hx.abs_sub_le y) (not_le.mpr hLess)
    · omega

theorem isNearest_toRat (x : Magnitude) : x.IsNearest x.toRat := by
  intro y hy
  left
  rw [sub_self, abs_zero, abs_pos, sub_ne_zero]
  exact fun h => hy (toRat_injective h).symm

/-- Nearest magnitudes stand in the order of their numbers. -/
theorem IsNearest.toRat_le {x y : Magnitude} {p q : ℚ} (hx : x.IsNearest p) (hy : y.IsNearest q)
    (h : p ≤ q) : x.toRat ≤ y.toRat := by
  by_contra hLess
  have hLess := not_le.mp hLess
  have hp := hx.abs_sub_le y
  have hq := hy.abs_sub_le x
  -- `p` is not below the middle between the two and `q` not above it
  have hLow : x.toRat + y.toRat ≤ 2 * p := by
    by_contra hBelow
    rw [abs_of_neg (by linarith), abs_sub_comm] at hp
    rcases abs_cases (y.toRat - p) with ⟨h', -⟩ | ⟨h', -⟩ <;> linarith
  have hHigh : 2 * q ≤ x.toRat + y.toRat := by
    by_contra hAbove
    rw [abs_of_pos (by linarith)] at hq
    rcases abs_cases (q - x.toRat) with ⟨h', -⟩ | ⟨h', -⟩ <;> linarith
  have hSame : p = q := by linarith
  subst hSame
  rw [hx.unique hy] at hLess
  exact lt_irrefl _ hLess

/-- What is not below a power of two that has a magnitude is not rounded to below it. -/
theorem IsNearest.two_zpow_le {x : Magnitude} {q : ℚ} {e : Int} (h : x.IsNearest q)
    (hLow : -1074 ≤ e) (hHigh : e ≤ 971) (hq : 2 ^ (52 + e) ≤ q) : 2 ^ (52 + e) ≤ x.toRat := by
  have hPower : (⟨pow2 52, e, by decide, hLow, hHigh, Or.inl (Nat.le_refl _)⟩ : Magnitude).toRat =
      2 ^ (52 + e) := by
    rw [toRat_eq, cast_pow2, zpow_add₀ two_ne_zero]
    norm_cast
  rw [← hPower] at hq ⊢
  exact (isNearest_toRat _).toRat_le h hq

/-! ## Rounding at a scale -/

/-- At the scale of `2 ^ e`, where the number has the bits of a significand, `m` is the integer
nearest to it, and the even one of two. -/
structure Scaled (q : ℚ) (e : Int) (m : Nat) : Prop where
  exponent : -1074 ≤ e
  lt : q < 2 ^ 53 * 2 ^ e
  le : e ≠ -1074 → 2 ^ 52 * 2 ^ e ≤ q
  near : |q * 2 ^ (-e) - m| ≤ 1 / 2
  even : |q * 2 ^ (-e) - m| = 1 / 2 → m % 2 = 0

namespace Scaled

variable {q : ℚ} {e : Int} {m : Nat}

theorem abs_sub_eq (q r : ℚ) (e : Int) : |q - r * 2 ^ e| = |q * 2 ^ (-e) - r| * 2 ^ e := by
  have hPos : (0 : ℚ) < 2 ^ e := by positivity
  rw [← abs_of_pos hPos, ← abs_mul, abs_of_pos hPos, sub_mul, mul_assoc, ← zpow_add₀ two_ne_zero,
    neg_add_cancel, zpow_zero, mul_one]

theorem abs_sub_le_half (h : Scaled q e m) : |q - m * 2 ^ e| ≤ 2 ^ e / 2 := by
  have hPos : (0 : ℚ) < 2 ^ e := by positivity
  have hNear := mul_le_mul_of_nonneg_right h.near hPos.le
  rw [abs_sub_eq]
  linarith

theorem scaled_lt (h : Scaled q e m) : q * 2 ^ (-e) < 2 ^ 53 := by
  have hPos : (0 : ℚ) < 2 ^ e := by positivity
  rw [zpow_neg, ← div_eq_mul_inv, div_lt_iff₀ hPos]
  exact h.lt

theorem le_scaled (h : Scaled q e m) (he : e ≠ -1074) : 2 ^ 52 ≤ q * 2 ^ (-e) := by
  have hPos : (0 : ℚ) < 2 ^ e := by positivity
  rw [zpow_neg, ← div_eq_mul_inv, le_div_iff₀ hPos]
  exact h.le he

theorem le_pow2_53 (h : Scaled q e m) : m ≤ pow2 53 := by
  have hNear := abs_le.mp h.near
  have hLt := h.scaled_lt
  have hCast : (m : ℚ) < (pow2 53 + 1 : Nat) := by
    rw [Nat.cast_add, cast_pow2]
    push_cast
    linarith [hNear.1]
  exact Nat.le_of_lt_succ (by exact_mod_cast hCast)

theorem pow2_52_le (h : Scaled q e m) (he : e ≠ -1074) : pow2 52 ≤ m := by
  have hNear := abs_le.mp h.near
  have hLe := h.le_scaled he
  have hCast : ((pow2 52 : Nat) : ℚ) < (m + 1 : Nat) := by
    rw [cast_pow2]
    push_cast
    linarith [hNear.2]
  exact Nat.le_of_lt_succ (by exact_mod_cast hCast)

/-- A magnitude of the same or a greater exponent is an integer at the scale. -/
theorem exists_toRat_eq {y : Magnitude} (hy : e ≤ y.exponent) :
    ∃ t : Nat, y.toRat = t * 2 ^ e ∧ (t % 2 = 1 → y.significand % 2 = 1) := by
  obtain ⟨n, hn⟩ : ∃ n : Nat, y.exponent = e + n := ⟨(y.exponent - e).toNat, by omega⟩
  refine ⟨y.significand * 2 ^ n, ?_, ?_⟩
  · rw [toRat_eq, hn, zpow_add₀ two_ne_zero, zpow_natCast]
    push_cast
    ring
  · intro hOdd
    exact Nat.odd_iff.mp (Nat.odd_mul.mp (Nat.odd_iff.mpr hOdd)).1

/-- Another integer is farther away than the nearest one, or equally far and odd. -/
theorem lt_or_odd (h : Scaled q e m) {t : Nat} (ht : t ≠ m) :
    |q - m * 2 ^ e| < |q - t * 2 ^ e| ∨
      |q - m * 2 ^ e| = |q - t * 2 ^ e| ∧ m % 2 = 0 ∧ t % 2 = 1 := by
  have hPos : (0 : ℚ) < 2 ^ e := by positivity
  have hNear := h.near
  have hEven := h.even
  rw [abs_sub_eq, abs_sub_eq, mul_lt_mul_iff_left₀ hPos, mul_left_inj' hPos.ne']
  generalize q * 2 ^ (-e) = r at *
  have hStep : (1 : ℚ) ≤ |(m : ℚ) - t| := by
    have hInt : (1 : ℤ) ≤ |(m : ℤ) - t| := Int.one_le_abs (by omega)
    exact_mod_cast hInt
  have hTriangle : |(m : ℚ) - t| ≤ |r - m| + |r - t| := by
    rw [abs_sub_comm r m]
    exact abs_sub_le (m : ℚ) r t
  by_cases hLess : |r - m| < |r - t|
  · exact Or.inl hLess
  · -- both are a half away, so the other integer is a neighbour
    have hTie : |r - m| = 1 / 2 := by linarith
    have hTie' : |r - t| = 1 / 2 := by linarith
    have hm := hEven hTie
    have hOne : |(m : ℤ) - t| = 1 := by
      have hCast : |(m : ℚ) - t| = 1 := by linarith
      exact_mod_cast hCast
    refine Or.inr ⟨hTie.trans hTie'.symm, hm, ?_⟩
    rcases abs_eq (by norm_num : (0 : ℤ) ≤ 1) |>.mp hOne with hUp | hDown <;> omega

/-- **The integer that is nearest at the scale is the nearest magnitude.** -/
theorem isNearest (h : Scaled q e m) {x : Magnitude} (hx : x.toRat = m * 2 ^ e)
    (hEven : m % 2 = 0 → x.significand % 2 = 0) : x.IsNearest q := by
  intro y hy
  by_cases hExponent : e ≤ y.exponent
  · obtain ⟨t, ht, hOdd⟩ := exists_toRat_eq hExponent
    have hne : t ≠ m := by
      rintro rfl
      exact hy (toRat_injective (ht.trans hx.symm))
    rw [hx, ht]
    exact (h.lt_or_odd hne).imp_right fun ⟨hEq, hm, ht⟩ => ⟨hEq, hEven hm, hOdd ht⟩
  · -- the others lie below the least full significand, from which the number is not farther away
    have he : e ≠ -1074 := by
      have := y.isMagnitude.2.1
      omega
    have hBelow := toRat_lt_of_exponent_lt (not_le.mp hExponent)
    have hLe := h.le he
    have hFar : |q - m * 2 ^ e| ≤ |q - (pow2 52 : Nat) * 2 ^ e| := by
      by_cases hm : pow2 52 = m
      · rw [hm]
      · rcases h.lt_or_odd hm with hLess | ⟨hEq, -⟩
        · exact hLess.le
        · exact hEq.le
    left
    rw [cast_pow2, abs_of_nonneg (by linarith : 0 ≤ q - 2 ^ 52 * 2 ^ e)] at hFar
    rw [hx, abs_of_pos (by linarith : 0 < q - y.toRat)]
    linarith

end Scaled

/-! ## The scale -/

theorem pow2_log2_le {n : Nat} (hn : n ≠ 0) : (2 : ℚ) ^ n.log2 ≤ n := by
  exact_mod_cast Nat.log2_self_le hn

theorem lt_pow2_log2 (n : Nat) : (n : ℚ) < 2 ^ (n.log2 + 1) := by
  exact_mod_cast Nat.lt_log2_self

/-- The bits of its parts tell how great a fraction is, up to one bit. -/
theorem div_log2_bounds {a b : Nat} (ha : a ≠ 0) (hb : b ≠ 0) :
    2 ^ ((a.log2 : Int) - b.log2 - 1) ≤ (a : ℚ) / b ∧
      (a : ℚ) / b < 2 ^ ((a.log2 : Int) - b.log2 + 1) := by
  have hb' : (0 : ℚ) < b := Nat.cast_pos.mpr (Nat.pos_of_ne_zero hb)
  have hLow : (a.log2 : Int) - b.log2 - 1 = a.log2 - (b.log2 + 1 : Nat) := by
    push_cast
    ring
  have hHigh : (a.log2 : Int) - b.log2 + 1 = (a.log2 + 1 : Nat) - b.log2 := by
    push_cast
    ring
  rw [hLow, hHigh, zpow_sub₀ two_ne_zero, zpow_sub₀ two_ne_zero]
  simp only [zpow_natCast]
  exact ⟨div_le_div₀ (Nat.cast_nonneg a) (pow2_log2_le ha) hb' (lt_pow2_log2 b).le,
    div_lt_div₀ (lt_pow2_log2 a) (pow2_log2_le hb) (by positivity) (by positivity)⟩

/-- Comparing a fraction with a power of two needs no division. -/
theorem lt_two_zpow_iff {a b : Nat} (hb : 0 < b) (k : Int) :
    (if 0 ≤ k then a < b * pow2 k.toNat else a * pow2 (-k).toNat < b) ↔ (a : ℚ) / b < 2 ^ k := by
  have hb' : (0 : ℚ) < b := Nat.cast_pos.mpr hb
  have hPos : (0 : ℚ) < 2 ^ (-k).toNat := by positivity
  rw [zpow_eq_div two_ne_zero, div_lt_div_iff₀ hb' hPos]
  split
  · have hZero : (-k).toNat = 0 := by omega
    rw [hZero, pow_zero, mul_one, mul_comm, ← cast_pow2]
    exact_mod_cast Iff.rfl
  · have hZero : k.toNat = 0 := by omega
    rw [hZero, pow_zero, one_mul, ← cast_pow2]
    exact_mod_cast Iff.rfl

/-- At the scale of `exponentFor` the number has the bits of a significand. -/
theorem exponentFor_spec (a : Nat) {b : Nat} (hb : 0 < b) :
    -1074 ≤ exponentFor a b ∧ (a : ℚ) / b < 2 ^ 53 * 2 ^ exponentFor a b ∧
      (exponentFor a b ≠ -1074 → 2 ^ 52 * 2 ^ exponentFor a b ≤ (a : ℚ) / b) := by
  rw [exponentFor]
  by_cases ha : a = 0
  · rw [if_pos ha, ha, Nat.cast_zero, zero_div]
    exact ⟨le_refl _, by positivity, fun h => absurd rfl h⟩
  · rw [if_neg ha]
    obtain ⟨hLow, hHigh⟩ := div_log2_bounds ha hb.ne'
    have hBelow := lt_two_zpow_iff (a := a) hb ((a.log2 : Int) - b.log2)
    have hUp : ∀ e : Int, (2 : ℚ) ^ 53 * 2 ^ e = 2 ^ (e + 53) := fun e => by
      rw [zpow_add₀ two_ne_zero, mul_comm]
      norm_num
    have hDown : ∀ e : Int, (2 : ℚ) ^ 52 * 2 ^ e = 2 ^ (e + 52) := fun e => by
      rw [zpow_add₀ two_ne_zero, mul_comm]
      norm_num
    dsimp only
    rw [hUp, hDown]
    generalize (a.log2 : Int) - b.log2 = k at *
    by_cases hLess : (a : ℚ) / b < 2 ^ k
    · rw [if_pos (hBelow.mpr hLess)]
      refine ⟨le_max_left _ _, hLess.trans_le ?_, fun hne => hLow.trans' ?_⟩
      · exact zpow_le_zpow_right₀ (by norm_num) (by omega)
      · exact zpow_le_zpow_right₀ (by norm_num) (by omega)
    · rw [if_neg fun h => hLess (hBelow.mp h)]
      refine ⟨le_max_left _ _, hHigh.trans_le ?_, fun hne => (not_lt.mp hLess).trans' ?_⟩
      · exact zpow_le_zpow_right₀ (by norm_num) (by omega)
      · exact zpow_le_zpow_right₀ (by norm_num) (by omega)

/-- What is rounded is scaled as it should be. -/
theorem scaled_exponentFor (a : Nat) {b : Nat} (hb : 0 < b) :
    Scaled ((a : ℚ) / b) (exponentFor a b)
      (roundHalfEven (a * pow2 (-exponentFor a b).toNat) (b * pow2 (exponentFor a b).toNat)) := by
  obtain ⟨hLeast, hLt, hLe⟩ := exponentFor_spec a hb
  generalize exponentFor a b = e at *
  have hDen : 0 < b * pow2 e.toNat := Nat.mul_pos hb (Nat.pow_pos (by decide))
  obtain ⟨hNear, hEven⟩ := roundHalfEven_spec (a * pow2 (-e).toNat) hDen
  have hValue : ((a * pow2 (-e).toNat : Nat) : ℚ) / (b * pow2 e.toNat : Nat) =
      (a : ℚ) / b * 2 ^ (-e) := by
    rw [zpow_eq_div two_ne_zero (-e), neg_neg, Nat.cast_mul, Nat.cast_mul, cast_pow2, cast_pow2,
      mul_div_mul_comm]
  rw [hValue] at hNear hEven
  exact ⟨hLeast, hLt, hLe, hNear, hEven⟩

/-! ## The nearest magnitude -/

/-- The numbers from here on are too great for the format: `2 ^ 1024 - 2 ^ 970`, the middle between
the greatest magnitude and the power of two above it. -/
def limit : ℚ := (2 ^ 53 - 1 / 2) * 2 ^ (971 : Int)

namespace Scaled

variable {q : ℚ} {e : Int} {m : Nat}

/-- At the greatest exponent, the limit is the middle that is rounded up to one bit too many. -/
theorem lt_limit_iff_of_greatest (h : Scaled q 971 m) : q < limit ↔ m ≠ pow2 53 := by
  have hPos : (0 : ℚ) < 2 ^ (971 : Int) := by positivity
  have hNear := abs_le.mp h.near
  have hEven := h.even
  have hMost := h.le_pow2_53
  have hCast := cast_pow2 53
  rw [limit, ← div_lt_iff₀ hPos, div_eq_mul_inv, ← zpow_neg]
  generalize q * 2 ^ (-(971 : Int)) = r at *
  constructor
  · rintro hLess rfl
    linarith
  · intro hm
    have hLess : (m : ℚ) + 1 ≤ (pow2 53 : Nat) := by exact_mod_cast lt_of_le_of_ne hMost hm
    refine lt_of_le_of_ne (by linarith) fun hTie => ?_
    -- the integer below the middle is odd
    have hBelow : (m : ℚ) + 1 = (pow2 53 : Nat) := by linarith
    have hHalf : |r - m| = 1 / 2 := by
      have hSub : r - m = 1 / 2 := by linarith
      rw [hSub, abs_of_pos one_half_pos]
    have hZero := hEven hHalf
    have hOdd : m + 1 = pow2 53 := by exact_mod_cast hBelow
    have hPower : pow2 53 % 2 = 0 := by decide
    omega

/-- Below the limit the rounded number has a magnitude of the format. -/
theorem lt_limit_iff (h : Scaled q e m) : q < limit ↔ e < 971 ∨ e = 971 ∧ m ≠ pow2 53 := by
  rcases lt_trichotomy e 971 with he | rfl | he
  · have hPower : (2 : ℚ) ^ e ≤ 2 ^ ((971 : Int) - 1) :=
      zpow_le_zpow_right₀ (by norm_num) (by omega)
    have hPos : (0 : ℚ) < 2 ^ (971 : Int) := by positivity
    have hLt := h.lt
    rw [zpow_sub_one₀ two_ne_zero] at hPower
    refine iff_of_true ?_ (Or.inl he)
    rw [limit]
    generalize (2 : ℚ) ^ (971 : Int) = p at *
    generalize (2 : ℚ) ^ e = r at *
    linarith
  · rw [h.lt_limit_iff_of_greatest]
    simp
  · have hPower : (2 : ℚ) ^ ((971 : Int) + 1) ≤ 2 ^ e :=
      zpow_le_zpow_right₀ (by norm_num) (by omega)
    have hPos : (0 : ℚ) < 2 ^ (971 : Int) := by positivity
    have hLe := h.le (by omega)
    rw [zpow_add_one₀ two_ne_zero] at hPower
    refine iff_of_false (not_lt.mpr ?_) (by omega)
    rw [limit]
    generalize (2 : ℚ) ^ (971 : Int) = p at *
    generalize (2 : ℚ) ^ e = r at *
    linarith

end Scaled

/-- The magnitude of a significand and an exponent, if they are in the form of the format. -/
def ofParts? (m : Nat) (e : Int) : Option Magnitude :=
  if h : IsMagnitude m e then some ⟨m, e, h⟩ else none

theorem ofParts?_eq_none_iff {m : Nat} {e : Int} : ofParts? m e = none ↔ ¬ IsMagnitude m e := by
  rw [ofParts?]
  split
  · rename_i h
    simp [h]
  · rename_i h
    simp [h]

theorem ofParts?_eq_some_iff {m : Nat} {e : Int} {x : Magnitude} :
    ofParts? m e = some x ↔ x.significand = m ∧ x.exponent = e := by
  rw [ofParts?]
  constructor
  · intro h
    split at h
    · obtain rfl := Option.some.inj h
      exact ⟨rfl, rfl⟩
    · cases h
  · rintro ⟨rfl, rfl⟩
    rw [dif_pos x.isMagnitude]

/-- What rounding comes to at its scale: one bit too many is carried into the exponent. -/
theorem exists_scaled (a : Nat) {b : Nat} (hb : 0 < b) :
    ∃ e m, Scaled ((a : ℚ) / b) e m ∧
      nearest? a b = if m = pow2 53 then ofParts? (pow2 52) (e + 1) else ofParts? m e := by
  refine ⟨_, _, scaled_exponentFor a hb, ?_⟩
  rw [nearest?]
  dsimp only
  split <;> rfl

/-- **A number has no nearest magnitude exactly from the limit on.** -/
theorem nearest?_eq_none_iff {a b : Nat} (hb : 0 < b) :
    nearest? a b = none ↔ limit ≤ (a : ℚ) / b := by
  obtain ⟨e, m, h, hNearest⟩ := exists_scaled a hb
  have hExponent := h.exponent
  have hMost := h.le_pow2_53
  have hFull := h.pow2_52_le
  have hPowers : pow2 52 < pow2 53 := by decide
  rw [hNearest, ← not_lt, h.lt_limit_iff]
  split
  · rw [ofParts?_eq_none_iff, IsMagnitude]
    omega
  · rw [ofParts?_eq_none_iff, IsMagnitude]
    omega

/-- Rounding takes the nearest magnitude, which is within a half of its last place. -/
theorem isNearest_of_nearest? {a b : Nat} (hb : 0 < b) {x : Magnitude}
    (hx : nearest? a b = some x) :
    x.IsNearest ((a : ℚ) / b) ∧ |(a : ℚ) / b - x.toRat| ≤ 2 ^ x.exponent / 2 := by
  obtain ⟨e, m, h, hNearest⟩ := exists_scaled a hb
  have hWithin := h.abs_sub_le_half
  rw [hNearest] at hx
  split at hx
  · rename_i hm
    obtain ⟨hSignificand, hExponent⟩ := ofParts?_eq_some_iff.mp hx
    have hValue : x.toRat = m * 2 ^ e := by
      rw [toRat_eq, hSignificand, hExponent, hm, cast_pow2, cast_pow2, zpow_add_one₀ two_ne_zero]
      ring
    have hPos : (0 : ℚ) < 2 ^ e := by positivity
    have hEven : pow2 52 % 2 = 0 := by decide
    rw [← hValue] at hWithin
    refine ⟨h.isNearest hValue fun _ => by rw [hSignificand, hEven], hWithin.trans ?_⟩
    rw [hExponent, zpow_add_one₀ two_ne_zero]
    linarith
  · obtain ⟨hSignificand, hExponent⟩ := ofParts?_eq_some_iff.mp hx
    have hValue : x.toRat = m * 2 ^ e := by rw [toRat_eq, hSignificand, hExponent]
    rw [← hValue, ← hExponent] at hWithin
    exact ⟨h.isNearest hValue fun hEven => by rwa [hSignificand], hWithin⟩

/-- **Rounding to the nearest double** finds a magnitude exactly for the numbers below the limit,
and it is the nearest one. -/
theorem nearest?_eq_some_iff {a b : Nat} (hb : 0 < b) {x : Magnitude} :
    nearest? a b = some x ↔ (a : ℚ) / b < limit ∧ x.IsNearest ((a : ℚ) / b) := by
  have hNone := nearest?_eq_none_iff (a := a) hb
  constructor
  · intro hx
    refine ⟨not_le.mp fun hLimit => ?_, (isNearest_of_nearest? hb hx).1⟩
    rw [hNone.mpr hLimit] at hx
    cases hx
  · rintro ⟨hLimit, hx⟩
    cases hy : nearest? a b with
    | none => exact absurd (hNone.mp hy) (not_le.mpr hLimit)
    | some y => rw [hx.unique (isNearest_of_nearest? hb hy).1]

theorem toRat_lt_limit (x : Magnitude) : x.toRat < limit := by
  have hLess : x.significand + 1 ≤ pow2 53 := x.isMagnitude.1
  have hCast : (x.significand : ℚ) + 1 ≤ (pow2 53 : Nat) := by exact_mod_cast hLess
  have hPower : (2 : ℚ) ^ x.exponent ≤ 2 ^ (971 : Int) :=
    zpow_le_zpow_right₀ (by norm_num) x.isMagnitude.2.2.1
  have hPos : (0 : ℚ) < 2 ^ (971 : Int) := by positivity
  rw [cast_pow2] at hCast
  rw [toRat_eq, limit]
  calc (x.significand : ℚ) * 2 ^ x.exponent ≤ x.significand * 2 ^ (971 : Int) :=
        mul_le_mul_of_nonneg_left hPower (Nat.cast_nonneg _)
    _ < (2 ^ 53 - 1 / 2) * 2 ^ (971 : Int) := mul_lt_mul_of_pos_right (by linarith) hPos

end Magnitude

end Numeral
