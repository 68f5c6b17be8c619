import Mathlib.Algebra.Order.Floor.Ring
import Mathlib.Data.Rat.Floor
import Mathlib.Tactic.NormNum
import Numeral.Proofs.Decimal.Value

/-!
# Rounding is exact

Rounding at a place takes the multiple of that place's power of ten that is nearest to the number,
and the greater one of two (`toRat_roundAt`).  The place may stand before the first digit, where
nothing is left, or behind the last one, where nothing changes; in between the digit behind the
place decides, and counting up may carry through all digits before it.  Since rounding keeps digits
below ten, this holds of every decimal that rounding leads to from the shortest decimal of a number
(`rounds_half_up`).
-/

namespace Numeral.Decimal

variable {d : Decimal}

/-! ### One cut -/

/-- What stands before the place, in units of the place, and what stands behind it. -/
theorem toRat_mul_zpow {kept rest : List Nat} {keep : Int} (hDigits : d.digits = kept ++ rest)
    (hKeep : keep = kept.length) :
    d.toRat * 10 ^ (keep - d.point) = ofDigits kept + fractionOf rest := by
  rw [← fractionOf_append, ← hDigits, toRat, mul_assoc, ← zpow_add₀ (by norm_num), hKeep,
    add_sub_cancel, zpow_natCast]

theorem toRat_ofDigitsAt_eq {ds : List Nat} {keep : Int} (point : Int) (hKeep : keep = ds.length) :
    (ofDigitsAt ds point).toRat = ofDigits ds * 10 ^ (point - keep) := by
  rw [toRat_ofDigitsAt, ← fractionOf_mul_pow, mul_assoc, ← zpow_natCast, ← zpow_add₀ (by norm_num),
    hKeep, add_sub_cancel]

/-- A place before the first digit is too great for the number to reach half of it. -/
theorem floor_of_neg (h : d.BelowTen) {keep : Int} (hKeep : keep < 0) :
    ⌊d.toRat * 10 ^ (keep - d.point) + 1 / 2⌋ = 0 := by
  have hScaled : d.toRat * 10 ^ (keep - d.point) = fractionOf d.digits * 10 ^ keep := by
    rw [toRat, mul_assoc, ← zpow_add₀ (by norm_num), add_sub_cancel]
  have hPower : (10 : ℚ) ^ keep ≤ 10 ^ (-1 : Int) :=
    zpow_le_zpow_right₀ (by norm_num) (by omega)
  have hPos : (0 : ℚ) < 10 ^ keep := by positivity
  have hNonneg := fractionOf_nonneg d.digits
  have hOne := fractionOf_lt_one h
  have hProduct : fractionOf d.digits * 10 ^ keep ≤ 1 * 10 ^ (-1 : Int) :=
    mul_le_mul hOne.le hPower hPos.le zero_le_one
  rw [zpow_neg_one] at hProduct
  rw [hScaled, Int.floor_eq_zero_iff]
  constructor
  · positivity
  · linarith

/-- The first digit behind the place decides whether half of it is reached. -/
theorem floor_of_cut (n : Nat) {next : Nat} {rest : List Nat} (h : ∀ e ∈ next :: rest, e < 10) :
    ⌊(n : ℚ) + fractionOf (next :: rest) + 1 / 2⌋ = if next < 5 then (n : Int) else n + 1 := by
  have hNext : next < 10 := h next List.mem_cons_self
  have hNonneg := fractionOf_nonneg rest
  have hOne := fractionOf_lt_one fun e he => h e (List.mem_cons_of_mem next he)
  rw [fractionOf_cons, Int.floor_eq_iff]
  split
  · rename_i hUp
    have hUp : (next : ℚ) ≤ 4 := by exact_mod_cast Nat.le_of_lt_succ hUp
    have hZero : (0 : ℚ) ≤ next := Nat.cast_nonneg next
    push_cast
    constructor
    · linarith
    · linarith
  · rename_i hUp
    have hUp : (5 : ℚ) ≤ next := by exact_mod_cast Nat.le_of_not_lt hUp
    have hNine : (next : ℚ) ≤ 9 := by exact_mod_cast Nat.le_of_lt_succ hNext
    push_cast
    constructor
    · linarith
    · linarith

/-- A number with all its digits before the place is a multiple of the place. -/
theorem floor_of_behind {keep : Int} (h : d.digits.length ≤ keep) :
    (⌊d.toRat * 10 ^ (keep - d.point) + 1 / 2⌋ : ℚ) = d.toRat * 10 ^ (keep - d.point) := by
  obtain ⟨n, hn⟩ : ∃ n : Nat, keep = d.digits.length + n :=
    ⟨(keep - d.digits.length).toNat, by omega⟩
  have hWhole : d.toRat * 10 ^ (keep - d.point) = (ofDigits d.digits * 10 ^ n : Nat) := by
    have hAll := toRat_mul_zpow (List.append_nil d.digits).symm rfl
    rw [fractionOf_nil, add_zero] at hAll
    rw [hn, add_sub_right_comm, zpow_add₀ (by norm_num), ← mul_assoc, hAll, zpow_natCast]
    push_cast
    rfl
  have hFloor : ∀ m : Nat, ⌊(m : ℚ) + 1 / 2⌋ = m := by
    intro m
    rw [Int.floor_natCast_add]
    norm_num
  rw [hWhole, hFloor, Int.cast_natCast]

/-- **Rounding at a place takes the nearest multiple of the place**, and the greater one of two. -/
theorem toRat_roundAt (h : d.BelowTen) (keep : Int) :
    (d.roundAt keep).toRat =
      ⌊d.toRat * 10 ^ (keep - d.point) + 1 / 2⌋ * 10 ^ (d.point - keep) := by
  have hRound := d.roundsTo_roundAt keep
  generalize d.roundAt keep = r at hRound ⊢
  have hBehind : ∀ {kept rest : List Nat}, d.digits = kept ++ rest → ∀ e ∈ rest, e < 10 :=
    fun hCut e he => h e (hCut ▸ List.mem_append_right _ he)
  cases hRound with
  | before hNeg =>
    rw [floor_of_neg h hNeg, toRat, fractionOf_nil, zero_mul, Int.cast_zero, zero_mul]
  | behind _ hLength =>
    rw [floor_of_behind hLength, mul_assoc, ← zpow_add₀ (by norm_num), sub_add_sub_cancel, sub_self,
      zpow_zero, mul_one]
  | down hCut hKeep hDown =>
    rw [toRat_mul_zpow hCut hKeep, floor_of_cut _ (hBehind hCut), if_pos hDown]
    exact toRat_ofDigitsAt_eq d.point hKeep
  | @up kept rest es next point hCut hKeep hUp hNext =>
    -- the digits that count one more end at the same place
    have hPlace : point - es.length = d.point - keep := by
      have := hNext.place
      omega
    rw [toRat_mul_zpow hCut hKeep, floor_of_cut _ (hBehind hCut), if_neg (Nat.not_lt.mpr hUp),
      toRat_ofDigitsAt_eq point rfl, hNext.ofDigits, hPlace]
    push_cast
    rfl

theorem toRat_roundToFraction {d : Decimal} (h : d.BelowTen) (max : Nat) :
    (d.roundToFraction max).toRat = ⌊d.toRat * 10 ^ max + 1 / 2⌋ / 10 ^ max := by
  have hPoint : d.point - (d.point + max) = -(max : Int) := by ring
  rw [roundToFraction, toRat_roundAt h, add_sub_cancel_left, hPoint, zpow_neg, zpow_natCast,
    ← div_eq_mul_inv]

/-! ### Rounding again and again -/

/-- A decimal that rounding can lead to from the shortest decimal of a number. -/
inductive Rounded : Decimal → Prop
  | shortest (x : Binary64) : Rounded (x.shortest .up)
  | toFraction {d : Decimal} (h : Rounded d) (max : Nat) : Rounded (d.roundToFraction max)
  | toSignificant {d : Decimal} (h : Rounded d) (max : Nat) : Rounded (d.roundToSignificant max)

theorem belowTen_shortest_binary64 (tie : Tie) (x : Binary64) : (x.shortest tie).BelowTen := by
  cases x with
  | nan => exact belowTen_zero
  | infinity negative => exact belowTen_zero
  | finite negative x => exact belowTen_shortest tie x

theorem Rounded.belowTen (h : Rounded d) : d.BelowTen := by
  induction h with
  | shortest x => exact belowTen_shortest_binary64 .up x
  | toFraction h max ih => exact ih.roundAt _
  | toSignificant h max ih => exact ih.roundAt _

/-- **Rounding is exact**, however often it is done: the result is the multiple of the last place
that is nearest to the number, and the greater one of two. -/
theorem rounds_half_up (h : Rounded d) (max : Nat) :
    (d.roundToFraction max).toRat = ⌊d.toRat * 10 ^ max + 1 / 2⌋ / 10 ^ max ∧
      (d.roundToSignificant max).toRat =
        ⌊d.toRat * 10 ^ ((max : Int) - d.point) + 1 / 2⌋ * 10 ^ (d.point - max) :=
  ⟨toRat_roundToFraction h.belowTen max, toRat_roundAt h.belowTen max⟩

/-- A half behind a row of nines carries through all of them, and what has been rounded is rounded
again, at a place before its first digit. -/
theorem rounds_half_up_nines :
    ∃ d : Decimal, Rounded d ∧ d = ⟨[9, 9, 9, 5], 3⟩ ∧ d.roundToFraction 0 = ⟨[1], 4⟩ ∧
      (d.roundToFraction 0).toRat = ⌊d.toRat * 10 ^ 0 + 1 / 2⌋ / 10 ^ 0 ∧
      ((d.roundToFraction 0).roundToSignificant 0).toRat =
        ⌊(d.roundToFraction 0).toRat * 10 ^ ((0 : Int) - 4) + 1 / 2⌋ * 10 ^ ((4 : Int) - 0) := by
  have hShortest : (Binary64.ofDecimal false 9995 (-1)).shortest .up = ⟨[9, 9, 9, 5], 3⟩ := by
    decide +kernel
  have hRounded : Rounded ⟨[9, 9, 9, 5], 3⟩ := hShortest ▸ Rounded.shortest _
  have hCarried : roundToFraction ⟨[9, 9, 9, 5], 3⟩ 0 = ⟨[1], 4⟩ := by decide
  have hAgain := (rounds_half_up (hRounded.toFraction 0) 0).2
  rw [hCarried] at hAgain
  refine ⟨_, hRounded, rfl, hCarried, (rounds_half_up hRounded 0).1, ?_⟩
  rw [hCarried]
  exact hAgain

end Numeral.Decimal
