import Numeral.Proofs.Binary64.Decimal
import Numeral.Proofs.Decimal.Grammar
import Numeral.Proofs.Decimal.Parts
import Numeral.Value.Text

/-!
# The texts of numbers

A number is written by digits with an optional point (`IsPositional`), or with an exponent.
Integers and whole numbers below `10 ^ 21` are written by all their digits, and the others by their
plain text (`toText_cases`); of those below `10 ^ 21`, exactly the ones below `1 / 10 ^ 5` have an
exponent (`isPositional_toText`, `mem_e_toText`).  The shortest decimal decides, but at this bound,
where the least double is above the bound and has it as its shortest decimal, it lies on the same
side as the number (`le_shortest_iff`).  The number is the nearest double to what its digits denote.
-/

namespace Numeral

open Decimal

/-! ## Positional texts -/

/-- The text is digits, and behind a point more digits or nothing, and they denote this number. -/
inductive IsPositional : List Char → ℚ → Prop
  | whole {ds : List Char} (hne : ds ≠ []) (hDigits : ∀ c ∈ ds, c.isDigit = true) :
      IsPositional ds (readDigits ds)
  | pointed {ds fs : List Char} (hne : ds ≠ []) (hDigits : ∀ c ∈ ds, c.isDigit = true)
      (hne' : fs ≠ []) (hDigits' : ∀ c ∈ fs, c.isDigit = true) :
      IsPositional (ds ++ '.' :: fs) (readDigits ds + readDigits fs / 10 ^ fs.length)

/-- A natural number is written by digits that denote it. -/
theorem natText_spec (n : Nat) :
    natText n ≠ [] ∧ (∀ c ∈ natText n, c.isDigit = true) ∧ readDigits (natText n) = n := by
  rw [natText]
  split
  · rename_i hn
    rw [hn]
    decide
  · rename_i hn
    have hBelow : ∀ d ∈ digitsOf n, d < 10 := fun d => lt_ten_of_mem_digitsOf
    have hValue : readDigits (digitText (digitsOf n)) = n := by
      rw [readDigits_digitText hBelow, ofDigits_digitsOf]
    refine ⟨fun hNil => hn ?_, isDigit_of_mem_digitText hBelow, hValue⟩
    rw [hNil] at hValue
    exact hValue.symm

theorem isPositional_natText (n : Nat) : IsPositional (natText n) n := by
  obtain ⟨hne, hDigits, hValue⟩ := natText_spec n
  have hText := IsPositional.whole hne hDigits
  rwa [hValue] at hText

theorem intText_eq (n : Int) : intText n = signed (n < 0) (natText n.natAbs) := by
  rw [intText, signed]
  split
  · rename_i hn
    rw [if_pos (decide_eq_true hn)]
  · rename_i hn
    rw [if_neg fun hd => hn (of_decide_eq_true hd)]

theorem isPositional_positionalText {d : Decimal} (h : d.BelowTen) :
    IsPositional d.positionalText d.toRat := by
  have hInteger := lt_ten_padLeft (n := 1) h.integerDigits
  have hFraction := lt_ten_padRight (n := 1) h.fractionDigits
  have hne : digitText (padLeft 1 d.integerDigits) ≠ [] :=
    fun hNil => padLeft_ne_nil (Nat.le_refl 1) _ (digitText_eq_nil_iff.mp hNil)
  have hne' : digitText (padRight 1 d.fractionDigits) ≠ [] := by
    intro hNil
    have hLength := le_length_padRight 1 d.fractionDigits
    rw [digitText_eq_nil_iff.mp hNil, List.length_nil] at hLength
    omega
  have hText := IsPositional.pointed hne (isDigit_of_mem_digitText hInteger) hne'
    (isDigit_of_mem_digitText hFraction)
  have hPad := ofDigits_padLeft_append 1 d.integerDigits []
  rw [List.append_nil, List.append_nil] at hPad
  rwa [readDigits_div hFraction, readDigits_digitText hInteger, hPad, fractionOf_padRight,
    ← valueOf, valueOf_parts] at hText

/-! ## Where the texts change -/

namespace Magnitude

variable {x : Magnitude}

theorem eq_zero_of_isZero (h : x.isZero = true) : x = zero :=
  toRat_injective ((toRat_eq_zero_iff.mpr h).trans toRat_zero.symm)

theorem toRat_pos (h : x.isZero = false) : 0 < x.toRat := by
  refine lt_of_le_of_ne x.toRat_nonneg fun hZero => ?_
  rw [toRat_eq_zero_iff.mp hZero.symm] at h
  cases h

/-- What is not zero has digits. -/
theorem digits_shortest_ne_nil (tie : Tie) (h : x.isZero = false) :
    (x.shortest tie).digits ≠ [] := by
  intro hNil
  have hNearest := (x.isNearest_shortest tie).2.1
  rw [toRat_of_nil hNil, ← toRat_zero] at hNearest
  rw [hNearest.unique zero.isNearest_toRat] at h
  cases h

/-- The nearest double to `1 / 10 ^ 5`. -/
def nearHundredThousandth : Magnitude := ⟨5902958103587057, -69, by decide⟩

theorem isNearest_nearHundredThousandth : nearHundredThousandth.IsNearest (1 / 10 ^ 5) := by
  have hNearest : nearest? 1 100000 = some nearHundredThousandth := by decide +kernel
  have h := ((nearest?_eq_some_iff (by decide)).mp hNearest).2
  norm_num at h ⊢
  exact h

/-- The shortest decimal is not below `1 / 10 ^ 5` exactly if the number is not. -/
theorem le_shortest_iff (x : Magnitude) :
    1 / 10 ^ 5 ≤ (x.shortest .even).toRat ↔ 1 / 10 ^ 5 ≤ x.toRat := by
  have hLeast : 1 / 10 ^ 5 ≤ nearHundredThousandth.toRat := by
    rw [toRat_eq, nearHundredThousandth]
    norm_num
  have hNear := isNearest_nearHundredThousandth
  have hShort := (x.isNearest_shortest .even).2.1
  constructor
  · intro h
    exact hLeast.trans (hNear.toRat_le hShort h)
  · intro h
    by_contra hBelow
    -- then the number is the nearest one to the bound, and the bound its shortest decimal
    have hLe := hShort.toRat_le hNear (not_le.mp hBelow).le
    have hGe := hNear.abs_sub_le x
    rw [abs_of_nonpos (by linarith), abs_of_nonpos (by linarith)] at hGe
    have hEq : x = nearHundredThousandth := toRat_injective (by linarith)
    have hShortest : nearHundredThousandth.shortest .even = ⟨[1], -4⟩ := by decide +kernel
    rw [hEq, hShortest] at hBelow
    norm_num [Decimal.toRat, fractionOf] at hBelow

/-- Below `2 ^ 53` the first digit stands at most sixteen places before the point. -/
theorem point_shortest_le (h : x.toRat < 2 ^ 53) (hZero : x.isZero = false) :
    (x.shortest .even).point ≤ 16 := by
  by_contra hPoint
  have hNormal := isNormal_shortest .even x
  have hLe : (10 : ℚ) ^ (16 : Int) ≤ (x.shortest .even).toRat :=
    (hNormal.zpow_le_iff (digits_shortest_ne_nil .even hZero)).mpr (not_le.mp hPoint)
  have hBound : (2 : ℚ) ^ (52 + 1 : Int) ≤ 10 ^ (16 : Int) := by norm_num
  have hGreat := (x.isNearest_shortest .even).2.1.two_zpow_le (by decide) (by decide)
    (hBound.trans hLe)
  have hCast : (2 : ℚ) ^ (52 + 1 : Int) = 2 ^ 53 := by norm_num
  rw [hCast] at hGreat
  exact absurd h (not_lt.mpr hGreat)

/-- A number that is not whole is below `2 ^ 53`. -/
theorem toRat_lt_of_not_isNat (h : x.isNat = false) : x.toRat < 2 ^ 53 := by
  have hExponent : x.exponent < 0 := by
    by_contra hNonneg
    have hDen : x.den = 1 := by
      have hZero : (-x.exponent).toNat = 0 := by omega
      rw [den, hZero]
      rfl
    rw [isNat, hDen, Nat.mod_one] at h
    cases h
  have hLt := x.significand_lt
  have hOne : (2 : ℚ) ^ x.exponent ≤ 1 := zpow_le_one_of_nonpos₀ (by norm_num) hExponent.le
  rw [toRat_eq]
  calc (x.significand : ℚ) * 2 ^ x.exponent ≤ x.significand * 1 :=
        mul_le_mul_of_nonneg_left hOne (Nat.cast_nonneg _)
    _ < 2 ^ 53 := by rwa [mul_one]

theorem toRat_of_isNat (h : x.isNat = true) : x.toRat = x.floor := by
  obtain ⟨n, hn⟩ := Nat.dvd_of_mod_eq_zero (beq_iff_eq.mp h)
  rw [toRat, floor, hn, Nat.mul_div_cancel_left n x.den_pos, Nat.cast_mul,
    mul_div_cancel_left₀ _ x.cast_den_pos.ne']

/-- Between the two bounds the plain text is positional, and below the lesser one it has an
exponent. -/
theorem plainText_eq (negative : Bool) (h : x.toRat < 2 ^ 53) (hZero : x.isZero = false) :
    x.plainText negative = signed negative (if 1 / 10 ^ 5 ≤ x.toRat
      then (x.shortest .even).positionalText
      else
        mantissaText (x.shortest .even).digits ++
          'e' :: intText ((x.shortest .even).point - 1)) := by
  have hne := digits_shortest_ne_nil .even hZero
  have hNormal := isNormal_shortest .even x
  have hPoint := point_shortest_le h hZero
  have hTen : (1 : ℚ) / 10 ^ 5 = 10 ^ (-5 : Int) := by norm_num
  have hLeast : 1 / 10 ^ 5 ≤ x.toRat ↔ -5 ≤ (x.shortest .even).point - 1 := by
    rw [← x.le_shortest_iff, hTen, hNormal.zpow_le_iff hne]
    omega
  have hSome : (x.shortest .even).isZero = false := List.isEmpty_eq_false_iff.mpr hne
  rw [plainText, Decimal.plainText]
  congr 1
  by_cases hGe : 1 / 10 ^ 5 ≤ x.toRat
  · have hRange : ((x.shortest .even).isZero || (decide (-5 ≤ (x.shortest .even).point - 1) &&
        decide ((x.shortest .even).point - 1 ≤ 15))) = true := by
      simp only [Bool.or_eq_true, Bool.and_eq_true, decide_eq_true_eq]
      exact Or.inr ⟨hLeast.mp hGe, by omega⟩
    rw [if_pos hGe]
    exact if_pos hRange
  · have hLess := mt hLeast.mpr hGe
    have hRange : ¬ ((x.shortest .even).isZero || (decide (-5 ≤ (x.shortest .even).point - 1) &&
        decide ((x.shortest .even).point - 1 ≤ 15))) = true := by
      simp [hSome, hLess]
    have hNegative : ¬ 0 ≤ (x.shortest .even).point - 1 := by omega
    rw [if_neg hGe]
    simp only [if_neg hRange, if_neg hNegative]

end Magnitude

/-! ## The texts of numbers -/

namespace Number

/-- The number that a literal spells, without its sign. -/
def magnitude : Number → ℚ
  | integer n => n.natAbs
  | real _ x => x.toRat

/-- What is nearest to a number that is not below one is not zero. -/
theorem isZero_of_isNearest {x : Magnitude} {q : ℚ} (h : x.IsNearest q) (hq : 1 ≤ q) :
    x.isZero = false := by
  have hOne : (2 : ℚ) ^ (52 + -52 : Int) = 1 := by norm_num
  have hGreat := h.two_zpow_le (by decide) (by decide) (hOne.trans_le hq)
  refine Bool.eq_false_iff.mpr fun hZero => ?_
  rw [hOne, Magnitude.toRat_eq_zero_iff.mpr hZero] at hGreat
  linarith

/-- The positive zero for the negative one is nearest as well, with the sign that integers have. -/
theorem isNearest_unsignedZero_ofInt (n : Int) :
    (Binary64.ofInt n).unsignedZero.IsNearest (n < 0) (n.natAbs : ℚ) := by
  have hNearest := Binary64.isNearest_ofInt n
  generalize Binary64.ofInt n = y at *
  cases y with
  | nan => exact hNearest.elim
  | infinity m => exact hNearest
  | finite m x =>
    obtain ⟨hm, hLimit, hx⟩ := hNearest
    rw [Binary64.unsignedZero, Binary64.isZero]
    split
    · rename_i hZero
      have hAbs : n.natAbs = 0 := by
        by_contra hne
        rw [isZero_of_isNearest hx (by exact_mod_cast Nat.one_le_iff_ne_zero.mpr hne)] at hZero
        cases hZero
      have hInt : ¬ n < 0 := by omega
      exact ⟨(decide_eq_false hInt).symm, hLimit, Magnitude.eq_zero_of_isZero hZero ▸ hx⟩
    · exact ⟨hm, hLimit, hx⟩

theorem unsignedZero_of_isZero {negative : Bool} {x : Magnitude} (h : x.isZero = false) :
    (Binary64.finite negative x).unsignedZero = .finite negative x :=
  if_neg (by rw [Binary64.isZero, h]; exact Bool.false_ne_true)

/-- The text of a number that is not whole, or too great to be written in full. -/
theorem toText_real {negative : Bool} {x : Magnitude} (hZero : x.isZero = false)
    (hNat : ¬ (x.isNat && x.floor < pow10 21) = true) :
    (real negative x).toText = x.plainText negative := by
  rw [toText, hZero, if_neg Bool.false_ne_true, if_neg hNat]

theorem not_isNat_of_lt {x : Magnitude} (hLess : x.toRat < 10 ^ 21)
    (hNat : ¬ (x.isNat && x.floor < pow10 21) = true) : x.isNat = false := by
  refine Bool.eq_false_iff.mpr fun hWhole => hNat ?_
  rw [hWhole, Bool.true_and, decide_eq_true_eq]
  rw [Magnitude.toRat_of_isNat hWhole, ← cast_pow10] at hLess
  exact_mod_cast hLess

/-- A number is written as a whole number with a sign, or by its plain text if it is not whole or
too great for this. -/
theorem toText_cases (n : Number) :
    (∃ negative k, n.toText = signed negative (natText k) ∧
      n.toBinary64.unsignedZero.IsNearest negative (k : ℚ)) ∨
    ∃ negative x, n = real negative x ∧ n.toBinary64.unsignedZero = .finite negative x ∧
      x.isZero = false ∧ ¬ (x.isNat && x.floor < pow10 21) = true ∧
        n.toText = x.plainText negative := by
  cases n with
  | integer n =>
    left
    refine ⟨n < 0, n.natAbs, ?_, isNearest_unsignedZero_ofInt n⟩
    rw [toText, intText_eq]
  | real negative x =>
    by_cases hZero : x.isZero = true
    · left
      have hNumber : (real negative x).toBinary64.unsignedZero = .zero := if_pos hZero
      refine ⟨false, 0, ?_, ?_⟩
      · rw [toText, if_pos hZero]
        rfl
      · rw [hNumber, Nat.cast_zero, ← Magnitude.toRat_zero]
        exact Binary64.isNearest_toRat false Magnitude.zero
    · have hZero := Bool.eq_false_iff.mpr hZero
      have hNumber : (real negative x).toBinary64.unsignedZero = .finite negative x :=
        unsignedZero_of_isZero hZero
      by_cases hNat : (x.isNat && x.floor < pow10 21) = true
      · left
        refine ⟨negative, x.floor, ?_, ?_⟩
        · rw [toText, hZero, if_neg Bool.false_ne_true, if_pos hNat]
        · rw [hNumber, ← Magnitude.toRat_of_isNat (Bool.and_eq_true_iff.mp hNat).1]
          exact Binary64.isNearest_toRat negative x
      · exact Or.inr ⟨negative, x, rfl, hNumber, hZero, hNat, toText_real hZero hNat⟩

/-- **Numbers from `1 / 10 ^ 5` up to `10 ^ 21`, and zero, are written by digits alone**, with a
point if they are not whole, and are the nearest doubles to what these digits denote. -/
theorem isPositional_toText (n : Number) (h : n.magnitude = 0 ∨ 1 / 10 ^ 5 ≤ n.magnitude)
    (hLess : n.magnitude < 10 ^ 21) :
    ∃ negative text q, n.toText = signed negative text ∧ IsPositional text q ∧
      n.toBinary64.unsignedZero.IsNearest negative q := by
  rcases n.toText_cases with ⟨negative, k, hText, hNearest⟩ |
    ⟨negative, x, rfl, hNumber, hZero, hNat, hText⟩
  · exact ⟨negative, natText k, k, hText, isPositional_natText k, hNearest⟩
  · have hBelow := Magnitude.toRat_lt_of_not_isNat (not_isNat_of_lt hLess hNat)
    have hLeast : 1 / 10 ^ 5 ≤ x.toRat := h.resolve_left (Magnitude.toRat_pos hZero).ne'
    rw [hText, hNumber, Magnitude.plainText_eq negative hBelow hZero, if_pos hLeast]
    exact ⟨negative, (x.shortest .even).positionalText, (x.shortest .even).toRat, rfl,
      isPositional_positionalText (belowTen_shortest .even x),
      Binary64.isNearest_shortest negative .even x⟩

/-- Smaller numbers are written with an exponent. -/
theorem mem_e_toText (n : Number) (hPos : n.magnitude ≠ 0) (hSmall : n.magnitude < 1 / 10 ^ 5) :
    'e' ∈ n.toText := by
  have hGreat : (1 : ℚ) / 10 ^ 5 < 1 := by norm_num
  cases n with
  | integer n =>
    have hOne : (1 : ℚ) ≤ n.natAbs := by
      have hne : n.natAbs ≠ 0 := fun hZero => hPos (by rw [magnitude, hZero, Nat.cast_zero])
      exact_mod_cast Nat.one_le_iff_ne_zero.mpr hne
    have hSmall : (n.natAbs : ℚ) < 1 / 10 ^ 5 := hSmall
    linarith
  | real negative x =>
    have hZero : x.isZero = false :=
      Bool.eq_false_iff.mpr fun hZero => hPos (Magnitude.toRat_eq_zero_iff.mpr hZero)
    have hSmall : x.toRat < 1 / 10 ^ 5 := hSmall
    have hNat : ¬ (x.isNat && x.floor < pow10 21) = true := by
      intro hNat
      -- a whole number below one is zero
      have hWhole := Magnitude.toRat_of_isNat (Bool.and_eq_true_iff.mp hNat).1
      have hFloor : (x.floor : ℚ) < (1 : Nat) := by
        rw [← hWhole, Nat.cast_one]
        linarith
      have hNone : x.floor = 0 := Nat.lt_one_iff.mp (by exact_mod_cast hFloor)
      rw [hNone, Nat.cast_zero] at hWhole
      exact hPos hWhole
    have hBelow : x.toRat < 2 ^ 53 := by
      have hBound : (1 : ℚ) < 2 ^ 53 := by norm_num
      linarith
    rw [toText_real hZero hNat, Magnitude.plainText_eq negative hBelow hZero,
      if_neg (not_le.mpr hSmall), signed]
    split
    · exact List.mem_cons_of_mem _ (List.mem_append_right _ List.mem_cons_self)
    · exact List.mem_append_right _ List.mem_cons_self

end Number

end Numeral
