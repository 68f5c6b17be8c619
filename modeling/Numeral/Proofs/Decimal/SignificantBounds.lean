import Mathlib.Data.Int.Log
import Numeral.Proofs.Decimal.FractionBounds
import Numeral.Proofs.Decimal.Parts

/-!
# Bounds on significant digits

The significant digits of a number that is written out are those from the first one that is not zero
to the end.  Rounding leaves at most as many as it is told to (`length_digits_roundAt_le`), but the
integer part is filled up with zeros as far as the point, and the least number of digits with zeros
behind it (`withSignificantDigits_eq`).  So the greatest number of digits bounds what is shown as
soon as there is a fraction (`shows_significant`).
-/

namespace Numeral.Decimal

/-- The number rounded to so many significant digits: the multiple of the place of the last one that
is nearest to the number, and the greater one of two. -/
def nearestSignificant (v : ℚ) (count : Nat) : ℚ :=
  ⌊v * 10 ^ (count - (Int.log 10 v + 1)) + 1 / 2⌋ * 10 ^ (Int.log 10 v + 1 - count)

/-- The digits from the first one that is not zero to the end. -/
def significant (integer fraction : List Nat) : List Nat :=
  (integer ++ fraction).dropWhile (· == 0)

variable {d : Decimal} {range : DigitRange}

/-! ### Rounding -/

/-- The place of the first digit tells how great the number is. -/
theorem IsNormal.log_toRat (h : d.IsNormal) (hne : d.digits ≠ []) :
    Int.log 10 d.toRat + 1 = d.point := by
  have hLe := h.le_toRat hne
  have hLt := toRat_lt h.belowTen
  have hPos := h.toRat_pos hne
  have hLow := (Int.zpow_le_iff_le_log (b := 10) (by norm_num) hPos).mp (by exact_mod_cast hLe)
  have hHigh := (Int.lt_zpow_iff_log_lt (b := 10) (by norm_num) hPos).mp (by exact_mod_cast hLt)
  omega

theorem floor_zero_mul (p q : ℚ) : ⌊0 * p + 1 / 2⌋ * q = 0 := by
  have hHalf : ⌊(1 / 2 : ℚ)⌋ = 0 := by norm_num
  rw [zero_mul, zero_add, hHalf, Int.cast_zero, zero_mul]

theorem toRat_roundToSignificant (h : d.IsNormal) (max : Nat) :
    (d.roundToSignificant max).toRat = nearestSignificant d.toRat max := by
  rw [roundToSignificant, toRat_roundAt h.belowTen, nearestSignificant]
  by_cases hNil : d.digits = []
  · rw [toRat_of_nil hNil, floor_zero_mul, floor_zero_mul]
  · rw [h.log_toRat hNil]

/-- What is carried out of all digits leaves zeros behind. -/
theorem increment_carried {ds es : List Nat} (h : increment ds = (true, es)) :
    es = List.replicate ds.length 0 := by
  induction ds generalizing es with
  | nil =>
    cases h
    rfl
  | cons d ds ih =>
    rw [increment] at h
    split at h
    · cases h
    · rename_i es' hi
      split at h
      · cases h
        rw [ih hi, List.length_cons, List.replicate_succ]
      · cases h

theorem dropWhile_zeros_append (n : Nat) (ds : List Nat) :
    (List.replicate n 0 ++ ds).dropWhile (· == 0) = ds.dropWhile (· == 0) := by
  apply List.dropWhile_append_of_pos
  intro e he
  rw [List.eq_of_mem_replicate he]
  rfl

theorem trimZeros_append_zeros (ds : List Nat) (n : Nat) :
    trimZeros (ds ++ List.replicate n 0) = trimZeros ds := by
  rw [trimZeros, List.reverse_append, List.reverse_replicate, dropWhile_zeros_append]
  rfl

theorem length_digits_ofDigitsAt (ds : List Nat) (point : Int) :
    (ofDigitsAt ds point).digits.length = (trimZeros ds).length := by
  unfold ofDigitsAt
  split
  · rename_i hEmpty
    rw [List.isEmpty_iff.mp hEmpty]
    rfl
  · rfl

/-- Counting one up leaves the point where it is, or a one that is carried out of the first digit is
all that is left. -/
theorem incrementAt_cases (ds : List Nat) (point : Int) :
    (∃ es, es.length = ds.length ∧ incrementAt ds point = ofDigitsAt es point) ∨
      incrementAt ds point = ⟨[1], point + 1⟩ := by
  have hLength := (increment_spec ds).1
  rw [incrementAt]
  cases hi : increment ds with
  | mk carried es =>
    rw [hi] at hLength
    cases carried with
    | false => exact Or.inl ⟨es, hLength, rfl⟩
    | true =>
      right
      have hOne := trimZeros_append_zeros [1] ds.length
      rw [List.singleton_append, ← increment_carried hi] at hOne
      have hTrim : trimZeros (1 :: es) = [1] := hOne
      simp only [ofDigitsAt, hTrim, List.isEmpty_cons, Bool.false_eq_true, if_false]

/-- Counting one up needs no more digits, as a carry out of the first one leaves nothing but
itself. -/
theorem length_digits_incrementAt_le (ds : List Nat) (point : Int) :
    (incrementAt ds point).digits.length ≤ max 1 ds.length := by
  rcases incrementAt_cases ds point with ⟨es, hLength, hEq⟩ | hEq
  · have hTrim := length_trimZeros_le es
    rw [hEq, length_digits_ofDigitsAt]
    omega
  · rw [hEq]
    exact le_max_left _ _

/-- Rounding leaves at most as many digits as it is told to. -/
theorem length_digits_roundAt_le {keep : Nat} (h : 1 ≤ keep) (d : Decimal) :
    (d.roundAt keep).digits.length ≤ keep := by
  have hTake := List.length_take_le keep d.digits
  rw [roundAt, if_neg (by omega), Int.toNat_natCast]
  cases hDrop : d.digits.drop keep with
  | nil => exact List.drop_eq_nil_iff.mp hDrop
  | cons next rest =>
    simp only []
    split
    · have hTrim := length_trimZeros_le (d.digits.take keep)
      rw [length_digits_ofDigitsAt]
      omega
    · have hIncrement := length_digits_incrementAt_le (d.digits.take keep) d.point
      omega

/-! ### Counting -/

theorem dropWhile_of_head?_ne_zero {ds : List Nat} (h : ds.head? ≠ some 0) :
    ds.dropWhile (· == 0) = ds := by
  cases ds with
  | nil => rfl
  | cons e es =>
    apply List.dropWhile_cons_of_neg
    intro he
    exact h (by rw [List.head?_cons, beq_iff_eq.mp he])

/-- The significant digits of a decimal are its own, with zeros behind them as far as the point. -/
theorem IsNormal.significant_parts (h : d.IsNormal) (hne : d.digits ≠ []) (k : Nat) :
    significant d.integerDigits (d.fractionDigits ++ List.replicate k 0) =
      padRight d.point.toNat d.digits ++ List.replicate k 0 := by
  have hHead : (padRight d.point.toNat d.digits ++ List.replicate k 0).head? ≠ some 0 := by
    rw [padRight, List.append_assoc, List.head?_append_of_ne_nil _ hne]
    exact h.head?_ne_zero
  rw [significant, ← List.append_assoc, integerDigits_append_fractionDigits, List.append_assoc,
    dropWhile_zeros_append, dropWhile_of_head?_ne_zero hHead]

theorem shownDigits_of_ne_nil (hne : d.digits ≠ []) :
    d.shownDigits = max d.point.toNat d.digits.length := by
  have hLength := List.length_pos_iff.mpr hne
  rw [shownDigits, isZero, if_neg (by rwa [List.isEmpty_iff]), length_integerDigits,
    length_fractionDigits]
  split
  · omega
  · omega

/-- With a fraction, the digits that are shown are those of the decimal. -/
theorem shownDigits_of_fraction (hne : d.digits ≠ []) (h : d.fractionDigits ≠ []) :
    d.shownDigits = d.digits.length := by
  have hLength := List.length_pos_iff.mpr hne
  have hFraction := List.length_pos_iff.mpr h
  rw [length_fractionDigits] at hFraction
  rw [shownDigits_of_ne_nil hne]
  omega

theorem IsNormal.length_significant (h : d.IsNormal) (hne : d.digits ≠ []) (k : Nat) :
    (significant d.integerDigits (d.fractionDigits ++ List.replicate k 0)).length =
      d.shownDigits + k := by
  rw [h.significant_parts hne, List.length_append, List.length_replicate, length_padRight,
    shownDigits_of_ne_nil hne]

/-- The zeros before the first digit of a number below one are part of its fraction. -/
theorem zeros_le_length_fractionDigits (d : Decimal) :
    (-d.point).toNat ≤ d.fractionDigits.length := by
  rw [length_fractionDigits]
  omega

theorem withSignificantDigits_eq (d : Decimal) (range : DigitRange) :
    d.withSignificantDigits range =
      ((d.roundToSignificant range.maximum).integerDigits,
        (d.roundToSignificant range.maximum).fractionDigits ++
          List.replicate (range.minimum - (d.roundToSignificant range.maximum).shownDigits) 0) := by
  rw [withSignificantDigits, padRight, Nat.add_sub_cancel_left]

/-! ### What is shown -/

/-- Integer digits and fraction digits show the number `v` within the bounds on its significant
digits.  The greatest number of them bounds a text with a fraction, and zeros stand at the end of a
fraction only to fill up to the least number.  Zero has no significant digit and counts as one. -/
structure ShowsSignificant (v : ℚ) (range : DigitRange) (integer fraction : List Nat) : Prop where
  valueOf_eq : valueOf integer fraction = nearestSignificant v range.maximum
  lt_ten : ∀ e ∈ integer ++ fraction, e < 10
  head?_ne_zero : integer.head? ≠ some 0
  minimum_le : valueOf integer fraction ≠ 0 → range.minimum ≤ (significant integer fraction).length
  le_maximum : valueOf integer fraction ≠ 0 → fraction ≠ [] →
    (significant integer fraction).length ≤ range.maximum
  ends : valueOf integer fraction ≠ 0 → fraction ≠ [] →
    (significant integer fraction).length = range.minimum ∨ fraction.getLast? ≠ some 0
  zero : valueOf integer fraction = 0 →
    integer = [] ∧ fraction = List.replicate (range.minimum - 1) 0

/-- A decimal that does not have too many digits is filled up with zeros within the bounds. -/
theorem IsNormal.filled_within (h : d.IsNormal) (hne : d.digits ≠ [])
    (hLength : d.digits.length ≤ range.maximum) (hRange : range.minimum ≤ range.maximum)
    {fraction : List Nat}
    (hFraction : fraction = d.fractionDigits ++ List.replicate (range.minimum - d.shownDigits) 0) :
    range.minimum ≤ (significant d.integerDigits fraction).length ∧
      (fraction ≠ [] → (significant d.integerDigits fraction).length ≤ range.maximum ∧
        ((significant d.integerDigits fraction).length = range.minimum ∨
          fraction.getLast? ≠ some 0)) := by
  rw [hFraction, h.length_significant hne]
  refine ⟨by omega, ?_⟩
  intro hSome
  by_cases hFilled : d.shownDigits < range.minimum
  · exact ⟨by omega, Or.inl (by omega)⟩
  · have hNone : range.minimum - d.shownDigits = 0 := by omega
    rw [hNone, List.replicate_zero, List.append_nil] at hSome ⊢
    have hShown := shownDigits_of_fraction hne hSome
    exact ⟨by omega, Or.inr (h.getLast?_fractionDigits_ne_zero fun hNil => absurd hNil hne)⟩

/-- Zero is shown by the zeros that fill up behind a first one. -/
theorem parts_of_nil (hNil : d.digits = []) (hPoint : d.point = 0) :
    d.integerDigits = [] ∧ d.fractionDigits = [] ∧ d.shownDigits = 1 := by
  have hFraction : d.fractionDigits = [] := by
    rw [fractionDigits, if_pos]
    rw [hNil, hPoint]
    exact le_refl 0
  refine ⟨?_, hFraction, ?_⟩
  · rw [integerDigits, if_pos hPoint.le]
  · rw [shownDigits, isZero, if_pos (List.isEmpty_iff.mpr hNil), hFraction]
    rfl

theorem IsNormal.showsSignificant (h : d.IsNormal) (hPoint : d.digits = [] → d.point = 0)
    (hMinimum : 1 ≤ range.minimum) (hRange : range.minimum ≤ range.maximum) :
    ShowsSignificant d.toRat range (d.withSignificantDigits range).1
      (d.withSignificantDigits range).2 := by
  obtain ⟨hInteger, hFraction⟩ := withSignificantDigits_lt_ten h.belowTen range
  have hValue := toRat_roundToSignificant h range.maximum
  have hNormal := h.roundToSignificant range.maximum
  have hLength : (d.roundToSignificant range.maximum).digits.length ≤ range.maximum :=
    length_digits_roundAt_le (hMinimum.trans hRange) d
  have hEnds : (d.roundToSignificant range.maximum).EndsWithin (range.maximum - d.point) :=
    endsWithin_roundAt (Int.natCast_nonneg range.maximum) hPoint
  rw [withSignificantDigits_eq] at hInteger hFraction ⊢
  generalize d.roundToSignificant range.maximum = r at *
  have hShown : valueOf r.integerDigits
      (r.fractionDigits ++ List.replicate (range.minimum - r.shownDigits) 0) = r.toRat := by
    rw [valueOf, fractionOf_append_zeros, ← valueOf, valueOf_parts]
  have hBelow : ∀ e ∈ r.integerDigits ++
      (r.fractionDigits ++ List.replicate (range.minimum - r.shownDigits) 0), e < 10 :=
    List.forall_mem_append.mpr ⟨hInteger, hFraction⟩
  generalize hText : r.fractionDigits ++ List.replicate (range.minimum - r.shownDigits) 0 = fraction
    at hShown hBelow ⊢
  have hne : valueOf r.integerDigits fraction ≠ 0 → r.digits ≠ [] :=
    fun hNonzero hNil => hNonzero (hShown.trans (toRat_of_nil hNil))
  refine ⟨hShown.trans hValue, hBelow, hNormal.head?_integerDigits_ne_zero, ?_, ?_, ?_, ?_⟩
  · intro hNonzero
    exact (hNormal.filled_within (hne hNonzero) hLength hRange hText.symm).1
  · intro hNonzero hSome
    exact ((hNormal.filled_within (hne hNonzero) hLength hRange hText.symm).2 hSome).1
  · intro hNonzero hSome
    exact ((hNormal.filled_within (hne hNonzero) hLength hRange hText.symm).2 hSome).2
  · intro hZero
    have hNil := hNormal.toRat_eq_zero_iff.mp (hShown.symm.trans hZero)
    obtain ⟨hNone, hNone', hOne⟩ := parts_of_nil hNil (hEnds.1 hNil)
    rw [← hText, hNone, hNone', hOne, List.nil_append]
    exact ⟨rfl, rfl⟩

/-- **Significant digits are shown within their bounds**, for every finite number: the digits denote
its shortest decimal rounded to the greatest number of significant digits, and between the bounds
none is missing and none too many.  The zeros before the first digit are part of the fraction, so
that counting the others takes nothing away that is not there. -/
theorem shows_significant (negative : Bool) (x : Magnitude)
    (hd : (Binary64.finite negative x).shortest .up = d) (hMinimum : 1 ≤ range.minimum)
    (hRange : range.minimum ≤ range.maximum) :
    ShowsSignificant d.toRat range (d.withSignificantDigits range).1
        (d.withSignificantDigits range).2 ∧
      (-(d.roundToSignificant range.maximum).point).toNat ≤
        (d.roundToSignificant range.maximum).fractionDigits.length := by
  have hNormal : d.IsNormal := hd ▸ isNormal_shortest .up x
  have hPoint : d.digits = [] → d.point = 0 := hd ▸ point_shortest_of_nil
  exact ⟨hNormal.showsSignificant hPoint hMinimum hRange, zeros_le_length_fractionDigits _⟩

/-- Behind a row of nines one digit is left, and two zeros fill it up. -/
theorem shows_significant_nines :
    ∃ x, Magnitude.ofDecimal? 999996 (-8) = some x ∧
      (Binary64.finite true x).shortest .up = ⟨[9, 9, 9, 9, 9, 6], -2⟩ ∧
      1 ≤ (DigitRange.mk 3 5).minimum ∧ (DigitRange.mk 3 5).minimum ≤ (DigitRange.mk 3 5).maximum ∧
      ShowsSignificant (toRat ⟨[9, 9, 9, 9, 9, 6], -2⟩) ⟨3, 5⟩ [] [0, 1, 0, 0] := by
  have hShortest : (Magnitude.ofDecimal? 999996 (-8)).map (·.shortest .up) =
      some ⟨[9, 9, 9, 9, 9, 6], -2⟩ := by
    decide +kernel
  have hDigits : (⟨[9, 9, 9, 9, 9, 6], -2⟩ : Decimal).withSignificantDigits ⟨3, 5⟩ =
      ([], [0, 1, 0, 0]) := by
    decide
  obtain ⟨x, hx, hDecimal⟩ := Option.map_eq_some_iff.mp hShortest
  obtain ⟨hShown, -⟩ := @shows_significant _ ⟨3, 5⟩ true x hDecimal (by decide) (by decide)
  rw [hDigits] at hShown
  exact ⟨x, hx, hDecimal, by decide, by decide, hShown⟩

end Numeral.Decimal
