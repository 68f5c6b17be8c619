import Numeral.Proofs.Binary64.Decimal
import Numeral.Proofs.Decimal.Grammar
import Numeral.Proofs.Decimal.SignificantBounds

/-!
# Coherent decimals

The digits of a decimal, the place of its point and the two texts that are written for it belong
together (`IsCoherent`): no zero stands at either end of the digits, there are no digits exactly for
zero, as many integer digits as the point asks for, and the two texts with a point between them are
a literal for the number.  This follows from the form of a normal decimal alone
(`IsNormal.isCoherent`), which the shortest decimal of every number has and every rounding keeps; so
decimals are coherent however often they are rounded (`rounding_coherent`).

Rounding leaves the point where it is or moves it to the first place, but for a one that is carried
out of the first digit (`point_roundAt`).  Since that one is then the only digit and does not round
up again, the point moves beyond the greatest place of a double once at most
(`Rounded.point_bounds`).
-/

namespace Numeral.Decimal

/-- The digits, the point and the two texts of a decimal belong together. -/
structure IsCoherent (d : Decimal) : Prop where
  lt_ten : ∀ e ∈ d.digits, e < 10
  head?_ne_zero : d.digits.head? ≠ some 0
  getLast?_ne_zero : d.digits.getLast? ≠ some 0
  isZero_iff : d.isZero = true ↔ d.toRat = 0
  head?_integerDigits_ne_zero : d.integerDigits.head? ≠ some 0
  length_integerDigits : (d.integerDigits.length : Int) = max d.point 0
  spells :
    SpellsDecimal (literalText (digitText d.integerDigits) (digitText d.fractionDigits)) false
      d.toRat
  zeros_le_length : (-d.point).toNat ≤ d.fractionDigits.length

variable {d : Decimal}

theorem isZero_iff_digits : d.isZero = true ↔ d.digits = [] := List.isEmpty_iff

/-- The two texts, with a point between them, are a literal for the decimal. -/
theorem BelowTen.spells_parts (h : d.BelowTen) :
    SpellsDecimal (literalText (digitText d.integerDigits) (digitText d.fractionDigits)) false
      d.toRat := by
  have hInteger := isDigit_of_mem_digitText h.integerDigits
  have hFraction := isDigit_of_mem_digitText h.fractionDigits
  have hText := SpellsDecimal.of_parse? (parse?_literalText hInteger hFraction)
  have hValue := toRat_readDigits false (digitText d.integerDigits) (digitText d.fractionDigits) 0
  rw [zero_sub, zpow_zero, mul_one, readDigits_div h.fractionDigits,
    readDigits_digitText h.integerDigits, ← valueOf, valueOf_parts] at hValue
  rwa [hValue] at hText

/-- **The form of a normal decimal is all that coherence needs.** -/
theorem IsNormal.isCoherent (h : d.IsNormal) : d.IsCoherent where
  lt_ten := h.belowTen
  head?_ne_zero := h.head?_ne_zero
  getLast?_ne_zero := h.getLast?_ne_zero
  isZero_iff := isZero_iff_digits.trans h.toRat_eq_zero_iff.symm
  head?_integerDigits_ne_zero := h.head?_integerDigits_ne_zero
  length_integerDigits := by
    rw [Decimal.length_integerDigits]
    omega
  spells := h.belowTen.spells_parts
  zeros_le_length := zeros_le_length_fractionDigits d

/-- Below one, the shown digits and the zeros before them are the fraction. -/
theorem shownDigits_add_zeros (hne : d.digits ≠ []) (hPoint : d.point ≤ 0) :
    d.shownDigits + (-d.point).toNat = d.fractionDigits.length := by
  have hLength := List.length_pos_iff.mpr hne
  rw [shownDigits_of_ne_nil hne, length_fractionDigits]
  omega

/-- **Decimals are coherent however often they are rounded.**  When the significant digits of one
below one are counted, the zeros behind the point are part of the fraction that they are taken away
from. -/
theorem rounding_coherent (h : Rounded d) :
    d.IsCoherent ∧ ∀ max, (d.roundToSignificant max).isZero = false →
      (d.roundToSignificant max).point ≤ 0 →
        (d.roundToSignificant max).shownDigits + (-(d.roundToSignificant max).point).toNat =
          (d.roundToSignificant max).fractionDigits.length := by
  refine ⟨h.isNormal.isCoherent, fun max hSome hPoint => shownDigits_add_zeros ?_ hPoint⟩
  intro hNil
  rw [isZero_iff_digits.mpr hNil] at hSome
  cases hSome

/-- Two nines are carried into a one below one tenth, and one more rounding leaves it as it is. -/
theorem rounding_coherent_nines :
    ∃ d : Decimal, Rounded d ∧ d = ⟨[1], -1⟩ ∧ d.IsCoherent ∧
      (d.roundToSignificant 1).isZero = false ∧ (d.roundToSignificant 1).point ≤ 0 ∧
        (d.roundToSignificant 1).shownDigits + 1 =
          (d.roundToSignificant 1).fractionDigits.length := by
  have hShortest : (Binary64.ofDecimal true 995 (-5)).shortest .up = ⟨[9, 9, 5], -2⟩ := by
    decide +kernel
  have hStart : Rounded ⟨[9, 9, 5], -2⟩ := hShortest ▸ Rounded.shortest _
  have hRounded : Rounded ⟨[1], -1⟩ := hStart.toSignificant 2
  obtain ⟨hCoherent, hShown⟩ := rounding_coherent hRounded
  exact ⟨_, hRounded, rfl, hCoherent, by decide, by decide, hShown 1 (by decide) (by decide)⟩

/-! ### The place of the point -/

theorem point_ofDigitsAt (ds : List Nat) (point : Int) :
    (ofDigitsAt ds point).point = point ∨ (ofDigitsAt ds point).point = 0 := by
  unfold ofDigitsAt
  split
  · exact Or.inr rfl
  · exact Or.inl rfl

/-- Rounding leaves the point where it is or moves it to the first place, but for a carried one. -/
theorem point_roundAt (d : Decimal) (keep : Int) :
    ((d.roundAt keep).point = d.point ∨ (d.roundAt keep).point = 0) ∨
      d.roundAt keep = ⟨[1], d.point + 1⟩ := by
  rw [roundAt]
  split
  · exact Or.inl (Or.inl rfl)
  · cases d.digits.drop keep.toNat with
    | nil => exact Or.inl (Or.inl rfl)
    | cons next rest =>
      simp only []
      split
      · exact Or.inl (point_ofDigitsAt _ _)
      · rcases incrementAt_cases (d.digits.take keep.toNat) d.point with ⟨es, -, hEq⟩ | hEq
        · rw [hEq]
          exact Or.inl (point_ofDigitsAt es d.point)
        · exact Or.inr hEq

/-- A lone one is not rounded up. -/
theorem roundAt_one {keep : Int} (h : 0 ≤ keep) (point : Int) :
    roundAt ⟨[1], point⟩ keep = zero ∨ roundAt ⟨[1], point⟩ keep = ⟨[1], point⟩ := by
  obtain ⟨n, rfl⟩ := Int.eq_ofNat_of_zero_le h
  rw [roundAt, if_neg (not_lt.mpr h), Int.toNat_natCast]
  cases n with
  | zero => exact Or.inl rfl
  | succ n =>
    right
    simp only [List.drop_succ_cons, List.drop_nil]

/-- The first digit of a double stands at one of these places. -/
theorem point_shortest_bounds (tie : Tie) (x : Magnitude) :
    -323 ≤ (x.shortest tie).point ∧ (x.shortest tie).point ≤ 309 := by
  have hNormal := isNormal_shortest tie x
  by_cases hNil : (x.shortest tie).digits = []
  · rw [point_shortest_of_nil hNil]
    decide
  · obtain ⟨hLimit, hNearest, -⟩ := x.isNearest_shortest tie
    constructor
    · by_contra hPoint
      -- half of the least magnitude is not reached, so the magnitude is zero and has no digits
      have hLess := Magnitude.two_mul_lt_of_place_lt (toRat_lt hNormal.belowTen) (not_le.mp hPoint)
      have hZero := Magnitude.isNearest_zero (hNormal.toRat_pos hNil).le hLess
      rw [hNearest.unique hZero] at hNil
      exact hNil rfl
    · by_contra hPoint
      have hGreat := Magnitude.limit_le_of_lt_place (hNormal.le_toRat hNil) (not_le.mp hPoint)
      exact absurd hLimit (not_lt.mpr hGreat)

/-- The first digit stands at a place of the doubles, or is a one that was carried out of the last
of these places. -/
def HasPlace (d : Decimal) : Prop :=
  -323 ≤ d.point ∧ (d.point ≤ 309 ∨ d = ⟨[1], 310⟩)

theorem hasPlace_zero : zero.HasPlace := ⟨by decide, Or.inl (by decide)⟩

theorem HasPlace.roundAt (h : d.HasPlace) {keep : Int} (hKeep : d.point ≤ keep ∨ 0 ≤ keep) :
    (d.roundAt keep).HasPlace := by
  obtain ⟨hLow, hHigh | rfl⟩ := h
  · rcases point_roundAt d keep with (hPoint | hPoint) | hOne
    · exact ⟨by omega, Or.inl (by omega)⟩
    · exact ⟨by omega, Or.inl (by omega)⟩
    · rw [hOne]
      refine ⟨show -323 ≤ d.point + 1 by omega, ?_⟩
      by_cases hLast : d.point = 309
      · rw [hLast]
        exact Or.inr rfl
      · exact Or.inl (show d.point + 1 ≤ 309 by omega)
  · have hNonneg : 0 ≤ keep := by
      rcases hKeep with hKeep | hKeep
      · exact le_trans (show (0 : Int) ≤ 310 by decide) hKeep
      · exact hKeep
    rcases roundAt_one hNonneg 310 with hZero | hOne
    · rw [hZero]
      exact hasPlace_zero
    · rw [hOne]
      exact ⟨hLow, Or.inr rfl⟩

/-- **The point stays within the places of the doubles**, but for the one that a carry adds, however
often the decimal is rounded. -/
theorem Rounded.point_bounds (h : Rounded d) : -323 ≤ d.point ∧ d.point ≤ 310 := by
  have hPlace : d.HasPlace := by
    induction h with
    | shortest x =>
      cases x with
      | nan => exact hasPlace_zero
      | infinity negative => exact hasPlace_zero
      | finite negative x =>
        obtain ⟨hLow, hHigh⟩ := point_shortest_bounds .up x
        exact ⟨hLow, Or.inl hHigh⟩
    | toFraction h max ih => exact ih.roundAt (Or.inl (by omega))
    | toSignificant h max ih => exact ih.roundAt (Or.inr (by omega))
  obtain ⟨hLow, hHigh | rfl⟩ := hPlace
  · exact ⟨hLow, by omega⟩
  · exact ⟨hLow, le_refl _⟩

end Numeral.Decimal
