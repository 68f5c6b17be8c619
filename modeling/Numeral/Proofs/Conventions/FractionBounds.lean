import Numeral.Conventions.Writing
import Numeral.Proofs.Decimal.FractionBounds

/-!
# Fraction digits that are written

Without bounds on the significant digits, a number is written with fraction digits within its
bounds, unless it is negligible for them: then it is written with as many zeros as stand before its
first digit (`writes_within_bounds`).
-/

namespace Numeral

/-- Integer digits and fraction digits show the decimal within the bounds.  A decimal that is
negligible for the bounds is shown as the zeros before its first digit, which are too many. -/
structure Decimal.ShownAs (d : Decimal) (range : DigitRange) (integer fraction : List Nat) :
    Prop where
  head?_ne_zero : integer.head? ≠ some 0
  minimum_le : range.minimum ≤ fraction.length
  admits_iff : range.Admits fraction ↔ ¬ d.Negligible range.maximum
  zeros : d.Negligible range.maximum → ∃ n, range.maximum < n ∧ integer = [] ∧
    fraction = List.replicate n 0 ∧ 1 / 10 ^ (n + 1) ≤ d.toRat ∧ d.toRat < 1 / 10 ^ n

open Decimal

theorem shownAs_withFractionDigits (x : Magnitude) {range : DigitRange}
    (hRange : range.minimum ≤ range.maximum) :
    (x.shortest .up).ShownAs range ((x.shortest .up).withFractionDigits range).1
      ((x.shortest .up).withFractionDigits range).2 := by
  have hNormal := isNormal_shortest .up x
  have hPoint := @point_shortest_of_nil .up x
  have hIff := hNormal.negligible_iff hPoint range.maximum
  generalize x.shortest .up = d at *
  have hHead := (hNormal.roundToFraction range.maximum).head?_integerDigits_ne_zero
  refine ⟨hHead, le_length_padRight _ _, ?_, ?_⟩
  · rw [hIff, not_lt]
    constructor
    · intro hAdmits
      by_contra hShort
      have hLe := hAdmits.le_maximum
      rw [withFractionDigits_of_lt hRange (by omega), List.length_replicate] at hLe
      omega
    · exact hNormal.admits_withFractionDigits hPoint hRange
  · intro hNegligible
    have hShort := hIff.mp hNegligible
    have hne : d.digits ≠ [] := by
      intro hNil
      have := hPoint hNil
      omega
    have hPower : ∀ n : Nat, (1 : ℚ) / 10 ^ n = 10 ^ (-(n : Int)) := by
      intro n
      rw [one_div, ← zpow_natCast, ← zpow_neg]
    refine ⟨(-d.point).toNat, by omega, ?_, ?_, ?_, ?_⟩
    · rw [withFractionDigits_of_lt hRange hShort]
    · rw [withFractionDigits_of_lt hRange hShort]
    · have hFirst : -(((-d.point).toNat + 1 : Nat) : Int) = d.point - 1 := by omega
      rw [hPower, hFirst]
      exact hNormal.le_toRat hne
    · have hFirst : -(((-d.point).toNat : Nat) : Int) = d.point := by omega
      rw [hPower, hFirst]
      exact toRat_lt hNormal.belowTen

namespace Conventions

variable {c : Conventions}

theorem shownDigits_of_none (h : c.config.significantDigits = none) (x : Magnitude) :
    c.shownDigits x = (x.shortest .up).withFractionDigits c.config.fractionDigits := by
  rw [shownDigits, h]

/-- A finite number without its sign is scaled to such a number, or to infinity. -/
theorem scaled_finite (c : Conventions) (x : Magnitude) :
    c.scaled (.finite false x) = .infinity false ∨
      ∃ m, c.scaled (.finite false x) = .finite false m := by
  unfold scaled
  split
  · rw [Binary64.hundredfold, Binary64.nearest]
    cases Magnitude.nearest? (100 * x.num) x.den with
    | none => exact Or.inl rfl
    | some m => exact Or.inr ⟨m, rfl⟩
  · exact Or.inr ⟨x, rfl⟩

/-- The text of a finite number has its sign, and between the affixes the infinity sign, if scaling
makes the number too great, or digits that show it within the bounds. -/
def WritesWithin (c : Conventions) (range : DigitRange) (negative : Bool) (x : Magnitude) : Prop :=
  ∃ body,
    c.write (.finite negative x) =
      (if (Binary64.finite negative x).isNegative then c.settings.minus.toList else []) ++
        c.affixes.leading ++ body ++ c.affixes.trailing ∧
    (c.scaled (.finite false x) = .infinity false ∧ body = c.settings.infinity.toList ∨
      ∃ m integer fraction, c.scaled (.finite false x) = .finite false m ∧
        body = (c.integerText integer ++ c.fractionText fraction).map
          c.numberingSystem.fromAscii ∧
        (m.shortest .up).ShownAs range integer fraction)

/-- **Fraction digits are shown within their bounds, but for negligible numbers.**  This holds of
the digits of every magnitude and of the text of every finite number. -/
theorem writes_within_bounds {range : DigitRange} (hRange : range.minimum ≤ range.maximum) :
    (∀ x : Magnitude, (x.shortest .up).ShownAs range
      ((x.shortest .up).withFractionDigits range).1
      ((x.shortest .up).withFractionDigits range).2) ∧
    ∀ c : Conventions, c.config.significantDigits = none → c.config.fractionDigits = range →
      ∀ negative x, c.WritesWithin range negative x := by
  refine ⟨fun x => shownAs_withFractionDigits x hRange, ?_⟩
  rintro c hNone rfl negative x
  refine ⟨c.bodyText (c.scaled (.finite false x)), rfl, ?_⟩
  rcases c.scaled_finite x with h | ⟨m, h⟩
  · rw [h]
    exact Or.inl ⟨rfl, rfl⟩
  · have hShown := shownAs_withFractionDigits m hRange
    rw [← shownDigits_of_none hNone] at hShown
    rw [h]
    exact Or.inr ⟨m, _, _, rfl, rfl, hShown⟩

/-- Behind a row of nines, rounding leaves no fraction, and one zero fills it up. -/
theorem writes_within_bounds_nines :
    ∃ x, Magnitude.ofDecimal? 99996 (-4) = some x ∧
      (x.shortest .up).ShownAs ⟨1, 3⟩ [1, 0] [0] ∧
      WritesWithin ⟨.plain, .latn, { fractionDigits := ⟨1, 3⟩ }, .none⟩ ⟨1, 3⟩ true x := by
  have hShortest : (Magnitude.ofDecimal? 99996 (-4)).map (·.shortest .up) =
      some ⟨[9, 9, 9, 9, 6], 1⟩ := by
    decide +kernel
  have hDigits : (⟨[9, 9, 9, 9, 6], 1⟩ : Decimal).withFractionDigits ⟨1, 3⟩ = ([1, 0], [0]) := by
    decide
  obtain ⟨x, hx, hDecimal⟩ := Option.map_eq_some_iff.mp hShortest
  obtain ⟨hShown, hText⟩ := @writes_within_bounds ⟨1, 3⟩ (by decide)
  have hShown := hShown x
  rw [hDecimal, hDigits] at hShown
  refine ⟨x, hx, ?_, hText _ rfl rfl true x⟩
  rw [hDecimal]
  exact hShown

/-- A number with zeros at the two places that may be shown and at one more is shown as three
zeros. -/
theorem not_within_two_places :
    ∃ x, Magnitude.ofDecimal? 4 (-4) = some x ∧
      (x.shortest .up).withFractionDigits ⟨0, 2⟩ = ([], [0, 0, 0]) ∧
      ¬ (DigitRange.mk 0 2).Admits ((x.shortest .up).withFractionDigits ⟨0, 2⟩).2 := by
  have hShortest : (Magnitude.ofDecimal? 4 (-4)).map (·.shortest .up) = some ⟨[4], -3⟩ := by
    decide +kernel
  have hShown : (⟨[4], -3⟩ : Decimal).withFractionDigits ⟨0, 2⟩ = ([], [0, 0, 0]) := by decide
  obtain ⟨x, hx, hDigits⟩ := Option.map_eq_some_iff.mp hShortest
  refine ⟨x, hx, ?_, ?_⟩
  · rw [hDigits, hShown]
  · rw [hDigits, hShown]
    intro h
    have := h.le_maximum
    contradiction

end Conventions

end Numeral
