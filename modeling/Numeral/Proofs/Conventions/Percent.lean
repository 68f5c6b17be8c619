import Numeral.Proofs.Binary64.Decimal
import Numeral.Proofs.Conventions.FractionBounds
import Numeral.Proofs.Conventions.Shape
import Numeral.Proofs.Decimal.SignificantBounds

/-!
# Numbers in hundredths

A number is shown by its shortest decimal, rounded to the bounds on its digits (`shows_shortest`).
In the percent style the double nearest to a hundred times the number takes its place.  So what is
shown is not a hundred times the shortest decimal, but within some units of the last binary places
of that (`abs_shortest_sub_le`): it is the same number once rounded, unless the two round apart, and
a number is shown as infinity if a hundred times it is too great for a double (`percent_shows`).
-/

namespace Numeral

open Decimal

namespace Conventions

variable {c : Conventions}

/-- A number rounded as the bounds on the digits demand. -/
def roundedNumber (c : Conventions) (q : ℚ) : ℚ :=
  match c.config.significantDigits with
  | some range => nearestSignificant q range.maximum
  | none =>
    ⌊q * 10 ^ c.config.fractionDigits.maximum + 1 / 2⌋ / 10 ^ c.config.fractionDigits.maximum

/-- The numbers that are at most so far from a number are rounded as the number itself. -/
def RoundsAlike (c : Conventions) (q distance : ℚ) : Prop :=
  ∀ p : ℚ, |p - q| ≤ distance → c.roundedNumber p = c.roundedNumber q

/-- Between its sign and the affixes a number is written by a magnitude, and the digits that are
shown for this one denote the number `q`. -/
def Shows (c : Conventions) (x : Binary64) (q : ℚ) : Prop :=
  ∃ m, c.scaled x.abs = .finite false m ∧
    c.write x = (if x.isNegative then c.settings.minus.toList else []) ++ c.affixes.leading ++
      c.magnitudeText m ++ c.affixes.trailing ∧
    valueOf (c.shownDigits m).1 (c.shownDigits m).2 = q

/-- A number is shown as one number at most. -/
theorem Shows.unique {x : Binary64} {p q : ℚ} (h : c.Shows x p) (h' : c.Shows x q) : p = q := by
  obtain ⟨m, hm, -, rfl⟩ := h
  obtain ⟨n, hn, -, rfl⟩ := h'
  cases hm.symm.trans hn
  rfl

theorem toRat_rounded (c : Conventions) (x : Magnitude) :
    (c.rounded x).toRat = c.roundedNumber (x.shortest .up).toRat := by
  have hNormal := isNormal_shortest .up x
  unfold rounded roundedNumber
  cases c.config.significantDigits with
  | some range => exact toRat_roundToSignificant hNormal _
  | none => exact toRat_roundToFraction hNormal.belowTen _

theorem valueOf_shownDigits (c : Conventions) (x : Magnitude) :
    valueOf (c.shownDigits x).1 (c.shownDigits x).2 = c.roundedNumber (x.shortest .up).toRat := by
  obtain ⟨n, hShown⟩ := c.exists_shownDigits_eq x
  rw [hShown, ← toRat_rounded, ← valueOf_parts, valueOf, valueOf, fractionOf_padRight]

/-- What is shown is the shortest decimal of the scaled number, rounded. -/
theorem shows_of_scaled {x : Binary64} {m : Magnitude} (h : c.scaled x.abs = .finite false m) :
    c.Shows x (c.roundedNumber (m.shortest .up).toRat) :=
  ⟨m, h, write_of_finite h, c.valueOf_shownDigits m⟩

/-- In the other styles the shortest decimal of the number itself is rounded. -/
theorem shows_shortest (h : c.config.style ≠ .percent) (negative : Bool) (x : Magnitude) :
    c.Shows (.finite negative x) (c.roundedNumber (x.shortest .up).toRat) := by
  refine shows_of_scaled ?_
  unfold scaled
  split
  · rename_i hPercent
    exact absurd hPercent h
  · rfl

/-! ### Numbers that are rounded alike -/

/-- Numbers are rounded alike to fraction digits as long as no half of the last place is between
them. -/
theorem roundsAlike_of_noTie (hNone : c.config.significantDigits = none) {q distance : ℚ}
    (hTie : ∀ n : ℤ, distance * 10 ^ c.config.fractionDigits.maximum <
      |q * 10 ^ c.config.fractionDigits.maximum - (n + 1 / 2)|) :
    c.RoundsAlike q distance := by
  intro p hp
  have hPos : (0 : ℚ) < 10 ^ c.config.fractionDigits.maximum := by positivity
  unfold roundedNumber
  rw [hNone]
  generalize (10 : ℚ) ^ c.config.fractionDigits.maximum = u at *
  have hScaled : |p * u - q * u| ≤ distance * u := by
    rw [← sub_mul, abs_mul, abs_of_pos hPos]
    exact mul_le_mul_of_nonneg_right hp hPos.le
  have hFloor : ⌊p * u + 1 / 2⌋ = ⌊q * u + 1 / 2⌋ := by
    have hLow := Int.floor_le (q * u + 1 / 2)
    have hHigh := Int.lt_floor_add_one (q * u + 1 / 2)
    -- the halves on both sides of the number
    have hBelow := hTie (⌊q * u + 1 / 2⌋ - 1)
    have hAbove := hTie ⌊q * u + 1 / 2⌋
    generalize ⌊q * u + 1 / 2⌋ = n at *
    push_cast at hBelow
    rw [abs_of_nonneg (by linarith)] at hBelow
    rw [abs_of_nonpos (by linarith)] at hAbove
    have hClose := abs_le.mp hScaled
    rw [Int.floor_eq_iff]
    constructor
    · linarith [hClose.1]
    · linarith [hClose.2]
  rw [hFloor]

/-- A number that needs no rounding is half of the last place away from where rounding changes. -/
theorem roundsAlike_of_whole (hNone : c.config.significantDigits = none) {q distance : ℚ} {n : ℤ}
    (hWhole : q * 10 ^ c.config.fractionDigits.maximum = n)
    (hDistance : distance * 10 ^ c.config.fractionDigits.maximum < 1 / 2) :
    c.RoundsAlike q distance := by
  refine roundsAlike_of_noTie hNone fun m => hDistance.trans_le ?_
  rw [hWhole]
  rcases lt_or_ge m n with h | h
  · have hStep : (m : ℚ) + 1 ≤ n := by exact_mod_cast h
    exact le_abs.mpr (Or.inl (by linarith))
  · have hStep : (n : ℚ) ≤ m := by exact_mod_cast h
    exact le_abs.mpr (Or.inr (by linarith))

/-! ### A hundred times a number -/

theorem cast_hundred_mul_div (x : Magnitude) :
    ((100 * x.num : Nat) : ℚ) / x.den = 100 * x.toRat := by
  rw [Nat.cast_mul, Nat.cast_ofNat, mul_div_assoc, Magnitude.toRat]

/-- Two roundings to doubles and one to a shortest decimal lie between what is shown and a hundred
times the shortest decimal. -/
theorem abs_shortest_sub_le {x y : Magnitude}
    (h : Magnitude.nearest? (100 * x.num) x.den = some y) :
    |(y.shortest .up).toRat - 100 * (x.shortest .up).toRat| ≤
      2 ^ y.exponent + 50 * 2 ^ x.exponent := by
  have hNear := (Magnitude.isNearest_of_nearest? x.den_pos h).2
  have hShort := (y.isNearest_shortest .up).2.2
  have hShort' := (x.isNearest_shortest .up).2.2
  rw [cast_hundred_mul_div] at hNear
  rw [abs_le] at *
  constructor
  · linarith [hNear.1, hShort.1, hShort'.2]
  · linarith [hNear.2, hShort.2, hShort'.1]

/-- **What the percent style shows.**  A number whose hundredfold is too great for a double is shown
as infinity.  Any other is shown as the shortest decimal of the double that is nearest to its
hundredfold, rounded; this is a hundred times its own shortest decimal, rounded, if the numbers
round alike that are so close to it as some units of the last binary places. -/
theorem percent_shows (hc : c.config.style = .percent) (negative : Bool) (x : Magnitude) :
    (Magnitude.limit ≤ 100 * x.toRat ∧
        c.write (.finite negative x) =
          (if (Binary64.finite negative x).isNegative then c.settings.minus.toList else []) ++
            c.affixes.leading ++ c.settings.infinity.toList ++ c.affixes.trailing) ∨
      100 * x.toRat < Magnitude.limit ∧ ∃ y : Magnitude, y.IsNearest (100 * x.toRat) ∧
        c.Shows (.finite negative x) (c.roundedNumber (y.shortest .up).toRat) ∧
        |(y.shortest .up).toRat - 100 * (x.shortest .up).toRat| ≤
          2 ^ y.exponent + 50 * 2 ^ x.exponent ∧
        (c.RoundsAlike (100 * (x.shortest .up).toRat) (2 ^ y.exponent + 50 * 2 ^ x.exponent) →
          c.Shows (.finite negative x) (c.roundedNumber (100 * (x.shortest .up).toRat))) := by
  have hScaled := scaled_percent hc x
  cases hNearest : Magnitude.nearest? (100 * x.num) x.den with
  | none =>
    left
    have hLimit := (Magnitude.nearest?_eq_none_iff x.den_pos).mp hNearest
    rw [cast_hundred_mul_div] at hLimit
    rw [hNearest, Binary64.ofMagnitude?] at hScaled
    refine ⟨hLimit, ?_⟩
    have hNumber : ¬ (Binary64.finite negative x).isNaN = true := Bool.false_ne_true
    rw [write, if_neg hNumber, Binary64.abs, hScaled, bodyText]
  | some y =>
    right
    have hSpec := (Magnitude.nearest?_eq_some_iff x.den_pos).mp hNearest
    rw [cast_hundred_mul_div] at hSpec
    rw [hNearest, Binary64.ofMagnitude?] at hScaled
    have hShows : c.Shows (.finite negative x) (c.roundedNumber (y.shortest .up).toRat) :=
      shows_of_scaled hScaled
    have hClose := abs_shortest_sub_le hNearest
    refine ⟨hSpec.1, y, hSpec.2, hShows, hClose, fun hAlike => ?_⟩
    rw [← hAlike _ hClose]
    exact hShows

/-- A quarter and six thousandths is a whole number of tenths of a percent, so the double near its
hundredfold whose digits are shown rounds to just that. -/
theorem percent_shows_quarter :
    ∃ (c : Conventions) (x : Magnitude), c.config.style = .percent ∧
      c.config.fractionDigits = ⟨0, 1⟩ ∧ Magnitude.ofDecimal? 256 (-3) = some x ∧
      c.Shows (.finite true x) (256 / 10) := by
  let c : Conventions := ⟨.plain, .latn, { style := .percent, fractionDigits := ⟨0, 1⟩ }, .none⟩
  have hDigits : (Magnitude.ofDecimal? 256 (-3)).bind (fun x =>
      (Magnitude.nearest? (100 * x.num) x.den).map fun y =>
        (x.shortest .up, x.exponent, y.exponent)) = some (⟨[2, 5, 6], 0⟩, -54, -48) := by
    decide +kernel
  obtain ⟨x, hx, hy⟩ := Option.bind_eq_some_iff.mp hDigits
  obtain ⟨y, hy, hAll⟩ := Option.map_eq_some_iff.mp hy
  obtain ⟨hShortest, hAll⟩ := Prod.mk.inj hAll
  obtain ⟨hExponent, hExponent'⟩ := Prod.mk.inj hAll
  obtain ⟨hLess, hNearest⟩ := (Magnitude.nearest?_eq_some_iff x.den_pos).mp hy
  rw [cast_hundred_mul_div] at hLess hNearest
  have hExact : 100 * (x.shortest .up).toRat = 256 / 10 := by
    rw [hShortest]
    norm_num [toRat, fractionOf]
  refine ⟨c, x, rfl, rfl, hx, ?_⟩
  rcases percent_shows (c := c) rfl true x with ⟨hLimit, -⟩ | ⟨-, z, hz, -, -, hShows⟩
  · exact absurd hLess (not_lt.mpr hLimit)
  · have hAlike : c.RoundsAlike (256 / 10) (2 ^ z.exponent + 50 * 2 ^ x.exponent) := by
      rw [hz.unique hNearest, hExponent, hExponent']
      exact roundsAlike_of_whole (n := 256) rfl (by norm_num [c]) (by norm_num [c])
    have hRounded : c.roundedNumber (256 / 10) = 256 / 10 := by
      norm_num [c, roundedNumber]
    rw [hExact, hRounded] at hShows
    exact hShows hAlike

/-- Seven hundredths are shown with a digit of rounding behind fourteen zeros, and a number that is
great but finite as infinity. -/
theorem percent_not_hundredfold :
    (∃ (c : Conventions) (x : Magnitude), c.config.style = .percent ∧
      c.config.fractionDigits = ⟨0, 20⟩ ∧ Magnitude.ofDecimal? 7 (-2) = some x ∧
      c.write (.finite false x) = "7.000000000000001%".toList ∧
      c.roundedNumber (100 * (x.shortest .up).toRat) = 7 ∧ ¬ c.Shows (.finite false x) 7) ∧
    ∃ (c : Conventions) (x : Magnitude), c.config.style = .percent ∧
      Magnitude.ofDecimal? 1 307 = some x ∧ c.write (.finite false x) = "∞%".toList ∧
      ∀ q, ¬ c.Shows (.finite false x) q := by
  constructor
  · let c : Conventions :=
      ⟨.plain, .latn, { style := .percent, fractionDigits := ⟨0, 20⟩ }, ⟨[], ['%']⟩⟩
    have hDigits : (Magnitude.ofDecimal? 7 (-2)).bind (fun x =>
        (Magnitude.nearest? (100 * x.num) x.den).map fun y =>
          (c.write (.finite false x), x.shortest .up, y.shortest .up)) =
        some ("7.000000000000001%".toList, ⟨[7], -1⟩,
          ⟨[7, 0, 0, 0, 0, 0, 0, 0, 0, 0, 0, 0, 0, 0, 0, 1], 1⟩) := by
      decide +kernel
    obtain ⟨x, hx, hy⟩ := Option.bind_eq_some_iff.mp hDigits
    obtain ⟨y, hy, hAll⟩ := Option.map_eq_some_iff.mp hy
    obtain ⟨hWrite, hAll⟩ := Prod.mk.inj hAll
    obtain ⟨hx', hy'⟩ := Prod.mk.inj hAll
    have hScaled : c.scaled (Binary64.finite false x).abs = .finite false y := by
      rw [Binary64.abs, scaled_percent rfl, hy, Binary64.ofMagnitude?]
    refine ⟨c, x, rfl, rfl, hx, hWrite, ?_, fun hSeven => ?_⟩
    · rw [hx']
      norm_num [c, roundedNumber, toRat, fractionOf]
    · have hShown := hSeven.unique (shows_of_scaled hScaled)
      rw [hy'] at hShown
      norm_num [c, roundedNumber, toRat, fractionOf] at hShown
  · let c : Conventions := ⟨.plain, .latn, { style := .percent }, ⟨[], ['%']⟩⟩
    have hText : (Magnitude.ofDecimal? 1 307).map (fun x =>
        (c.write (.finite false x), c.scaled (.finite false x))) =
        some ("∞%".toList, .infinity false) := by
      decide +kernel
    obtain ⟨x, hx, hBoth⟩ := Option.map_eq_some_iff.mp hText
    obtain ⟨hWrite, hScaled⟩ := Prod.mk.inj hBoth
    refine ⟨c, x, rfl, hx, hWrite, ?_⟩
    rintro q ⟨m, hm, -⟩
    rw [Binary64.abs, hScaled] at hm
    cases hm

end Conventions

end Numeral
