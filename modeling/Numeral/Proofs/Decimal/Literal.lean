import Numeral.Decimal.Literal
import Numeral.Proofs.Decimal.Digits
import Numeral.Proofs.Text.Span

/-!
# Reading plain decimals

Digits with a point between them are a decimal literal, and it denotes the digits read as one
number, scaled down by the digits behind the point (`parse?_pointText`).  Either side of the point
may have no digits (`parse?_literalText`).
-/

namespace Numeral.Decimal

open Text

/-- Integer digits and fraction digits with a point between them, and at least one before it. -/
def pointText (integer fraction : List Nat) : List Char :=
  digitText (padLeft 1 integer) ++ '.' :: digitText fraction

theorem splitSign_cons_of_isDigit {c : Char} (h : c.isDigit = true) (cs : List Char) :
    splitSign (c :: cs) = (false, c :: cs) := by
  have hMinus : c ≠ '-' := by
    rintro rfl
    cases h
  have hPlus : c ≠ '+' := by
    rintro rfl
    cases h
  rw [splitSign]
  · exact fun _ he => hMinus (List.cons.inj he).1
  · exact fun _ he => hPlus (List.cons.inj he).1

theorem splitSign_append_of_isDigit {ds : List Char} (hne : ds ≠ [])
    (h : ∀ c ∈ ds, c.isDigit = true) (cs : List Char) :
    splitSign (ds ++ cs) = (false, ds ++ cs) := by
  obtain ⟨d, ds, rfl⟩ := List.exists_cons_of_ne_nil hne
  exact splitSign_cons_of_isDigit (h d List.mem_cons_self) _

/-- Digits and a fraction behind them, up to the end of the text, are read without a sign. -/
theorem parse?_append {whole rest fraction : List Char} (hne : whole ≠ [])
    (hWhole : ∀ c ∈ whole, c.isDigit = true) (hRest : HeadNot Char.isDigit rest)
    (hSplit : splitFraction rest = (fraction, [])) :
    Literal.parse? (whole ++ rest) =
      some ⟨false, readDigits (whole ++ fraction), -(fraction.length : Int)⟩ := by
  have hEmpty := List.isEmpty_eq_false_iff.mpr hne
  simp only [Literal.parse?, splitSign_append_of_isDigit hne hWhole,
    takeWhile_append_of_headNot hWhole hRest, dropWhile_append_of_headNot hWhole hRest, hSplit,
    hEmpty, Bool.false_and, Bool.false_eq_true, if_false, readExponent?, Option.bind_eq_bind,
    Option.bind_some, zero_sub]

theorem splitFraction_point {fraction : List Char} (h : ∀ c ∈ fraction, c.isDigit = true) :
    splitFraction ('.' :: fraction) = (fraction, []) := by
  have hTake := takeWhile_append_of_headNot h (headNot_nil _)
  have hDrop := dropWhile_append_of_headNot h (headNot_nil _)
  rw [List.append_nil] at hTake hDrop
  rw [splitFraction, hTake, hDrop]

theorem parse?_pointText {integer fraction : List Nat} (hi : ∀ d ∈ integer, d < 10)
    (hf : ∀ d ∈ fraction, d < 10) :
    Literal.parse? (pointText integer fraction) =
      some ⟨false, ofDigits (integer ++ fraction), -(fraction.length : Int)⟩ := by
  have hne : digitText (padLeft 1 integer) ≠ [] :=
    fun h => padLeft_ne_nil (Nat.le_refl 1) integer (digitText_eq_nil_iff.mp h)
  have hValue : readDigits (digitText (padLeft 1 integer) ++ digitText fraction) =
      ofDigits (integer ++ fraction) := by
    rw [← digitText_append, readDigits_digitText, ofDigits_padLeft_append]
    intro e he
    rcases List.mem_append.mp he with h | h
    · exact lt_ten_padLeft hi e h
    · exact hf e h
  rw [pointText, parse?_append hne (isDigit_of_mem_digitText (lt_ten_padLeft hi))
    (headNot_cons_iff.mpr rfl) (splitFraction_point (isDigit_of_mem_digitText hf)), hValue,
    length_digitText]

/-- The plain spelling of digits.  A zero stands where there are no integer digits, and no point
where there is no fraction. -/
def literalText (integer fraction : List Char) : List Char :=
  (if integer.isEmpty then ['0'] else integer) ++
    if fraction.isEmpty then [] else '.' :: fraction

theorem parse?_literalText {integer fraction : List Char} (hi : ∀ c ∈ integer, c.isDigit = true)
    (hf : ∀ c ∈ fraction, c.isDigit = true) :
    Literal.parse? (literalText integer fraction) =
      some ⟨false, readDigits (integer ++ fraction), -(fraction.length : Int)⟩ := by
  have hRest : HeadNot Char.isDigit (if fraction.isEmpty then [] else '.' :: fraction) ∧
      splitFraction (if fraction.isEmpty then [] else '.' :: fraction) = (fraction, []) := by
    cases fraction with
    | nil => exact ⟨headNot_nil _, rfl⟩
    | cons d ds => exact ⟨headNot_cons_iff.mpr rfl, splitFraction_point hf⟩
  cases integer with
  | nil =>
    -- the zero at the front does not count
    have hZero : readDigits (['0'] ++ fraction) = readDigits ([] ++ fraction) := by
      rfl
    have hDigit : ∀ c ∈ ['0'], c.isDigit = true := by decide
    have hParse := parse?_append (List.cons_ne_nil '0' []) hDigit hRest.1 hRest.2
    rwa [hZero] at hParse
  | cons d ds => exact parse?_append (List.cons_ne_nil d ds) hi hRest.1 hRest.2

end Numeral.Decimal
