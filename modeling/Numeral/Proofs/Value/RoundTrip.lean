import Numeral.Proofs.Value.Coercion
import Numeral.Proofs.Value.Text

/-!
# Numbers read back from their texts

Every text of a number is a decimal literal for a number to which the number itself is the nearest
double (`spellsDecimal_toText`).  A whole number with a sign and a positional text are literals
without an exponent.  The other plain texts have one, and their mantissa is ten times the fraction
of the digits (`spellsMantissa_mantissaText`).

A decimal literal has no white space that could be trimmed, is no text of another kind, and is read
as the nearest double to what it denotes (`SpellsDecimal.isNearest_readNumeral`).  At most one
double is nearest, so a number and its text are the same number (`toNumber?_toText`).
-/

namespace Numeral

open Text Decimal

/-! ## Texts are literals -/

theorem spellsDecimal_signed {mantissa whole fraction exponent : List Char} {e : Int}
    (hMantissa : SpellsMantissa mantissa whole fraction) (hExponent : SpellsExponent exponent e)
    (negative : Bool) :
    SpellsDecimal (signed negative (mantissa ++ exponent)) negative
      ((readDigits whole + readDigits fraction / 10 ^ fraction.length) * 10 ^ e) := by
  cases negative with
  | false => exact .intro .absent hMantissa hExponent
  | true => exact .intro .minus hMantissa hExponent

theorem IsPositional.spellsDecimal {text : List Char} {q : ℚ} (h : IsPositional text q)
    (negative : Bool) : SpellsDecimal (signed negative text) negative q := by
  cases h with
  | whole hne hDigits =>
    have hText := spellsDecimal_signed (.plain hDigits hne) .absent negative
    rwa [List.append_nil, readDigits_nil, Nat.cast_zero, zero_div, add_zero, zpow_zero,
      mul_one] at hText
  | @pointed ds fs hne hDigits hne' hDigits' =>
    have hSome := List.append_ne_nil_of_left_ne_nil hne fs
    have hText := spellsDecimal_signed (.pointed hDigits hDigits' hSome) .absent negative
    rwa [List.append_nil, zpow_zero, mul_one] at hText

theorem readDigits_singleton {d : Nat} (h : d < 10) : readDigits (digitText [d]) = d := by
  rw [readDigits_digitText (List.forall_mem_singleton.mpr h), ofDigits_cons, List.length_nil,
    pow_zero, mul_one]
  rfl

/-- With the point behind the first digit, digits denote ten times their fraction. -/
theorem spellsMantissa_mantissaText {ds : List Nat} (h : ∀ d ∈ ds, d < 10) :
    ∃ whole fraction, SpellsMantissa (mantissaText ds) whole fraction ∧
      (readDigits whole + readDigits fraction / 10 ^ fraction.length : ℚ) = fractionOf ds * 10 := by
  have hNone : (readDigits [] : ℚ) / 10 ^ ([] : List Char).length = 0 := by
    rw [readDigits_nil, Nat.cast_zero, zero_div]
  match ds with
  | [] =>
    obtain ⟨hne, hDigits, hValue⟩ := natText_spec 0
    refine ⟨natText 0, [], .plain hDigits hne, ?_⟩
    rw [hValue, hNone, fractionOf_nil, Nat.cast_zero, add_zero, zero_mul]
  | [d] =>
    have hDigits := isDigit_of_mem_digitText h
    refine ⟨digitText [d], [], .plain hDigits (List.cons_ne_nil _ _), ?_⟩
    rw [readDigits_singleton (h d List.mem_cons_self), hNone, fractionOf_cons, fractionOf_nil,
      div_mul_cancel₀ _ (by norm_num)]
  | d :: e :: es =>
    obtain ⟨hFirst, hRest⟩ := List.forall_mem_cons.mp h
    have hDigits := isDigit_of_mem_digitText (List.forall_mem_singleton.mpr hFirst)
    refine ⟨digitText [d], digitText (e :: es),
      .pointed hDigits (isDigit_of_mem_digitText hRest) (List.cons_ne_nil _ _), ?_⟩
    rw [readDigits_singleton hFirst, readDigits_div hRest, fractionOf_cons d,
      div_mul_cancel₀ _ (by norm_num)]

theorem spellsExponent_intText (e : Int) :
    SpellsExponent ('e' :: (if 0 ≤ e then '+' :: intText e else intText e)) e := by
  obtain ⟨hne, hDigits, hValue⟩ := natText_spec e.natAbs
  rw [intText]
  by_cases he : 0 ≤ e
  · have hText := SpellsExponent.marked (Or.inl rfl) .plus hne hDigits
    have hAbs : ((readDigits (natText e.natAbs) : Nat) : Int) = e := by
      rw [hValue]
      exact Int.natAbs_of_nonneg he
    rw [if_pos he, if_neg (not_lt.mpr he)]
    rwa [if_neg Bool.false_ne_true, hAbs] at hText
  · have hText := SpellsExponent.marked (Or.inl rfl) .minus hne hDigits
    have hAbs : -((readDigits (natText e.natAbs) : Nat) : Int) = e := by
      rw [hValue]
      omega
    rw [if_neg he, if_pos (not_le.mp he)]
    rwa [if_pos rfl, hAbs] at hText

/-- The plain text of a decimal is a literal for it, in either of its forms. -/
theorem spellsDecimal_plainText {d : Decimal} (h : d.BelowTen) (negative : Bool) :
    SpellsDecimal (signed negative d.plainText) negative d.toRat := by
  rw [Decimal.plainText]
  split
  · exact (isPositional_positionalText h).spellsDecimal negative
  · obtain ⟨whole, fraction, hMantissa, hValue⟩ := spellsMantissa_mantissaText h
    have hText := spellsDecimal_signed hMantissa (spellsExponent_intText (d.point - 1)) negative
    -- the written point stands behind the first digit, and the exponent makes up for that
    have hScaled : fractionOf d.digits * 10 * 10 ^ (d.point - 1) = d.toRat := by
      rw [Decimal.toRat, mul_assoc, ← zpow_one_add₀ (by norm_num), add_sub_cancel]
    rwa [hValue, hScaled] at hText

/-- **The text of a number is a decimal literal**, for a number to which it is the nearest
double. -/
theorem Number.spellsDecimal_toText (n : Number) :
    ∃ negative q, SpellsDecimal n.toText negative q ∧
      n.toBinary64.unsignedZero.IsNearest negative q := by
  rcases n.toText_cases with
    ⟨negative, k, hText, hNearest⟩ | ⟨negative, x, rfl, hNumber, -, -, hText⟩
  · rw [hText]
    exact ⟨negative, k, (isPositional_natText k).spellsDecimal negative, hNearest⟩
  · rw [hText, hNumber]
    exact ⟨negative, (x.shortest .even).toRat,
      spellsDecimal_plainText (belowTen_shortest .even x) negative,
      Binary64.isNearest_shortest negative .even x⟩

/-! ## Literals are read -/

namespace Decimal

variable {cs : List Char} {negative : Bool} {q : ℚ}

/-- There is no white space in a literal. -/
theorem SpellsDecimal.ink (h : SpellsDecimal cs negative q) : ∀ c ∈ cs, isWhiteSpace c = false := by
  have hRun : ∀ {ds : List Char}, (∀ c ∈ ds, c.isDigit = true) →
      ∀ c ∈ ds, isWhiteSpace c = false :=
    fun hDigits c hc => not_isWhiteSpace_of_isDigit (hDigits c hc)
  have hSigned : ∀ {sign : List Char} {m : Bool}, SpellsSign sign m →
      ∀ c ∈ sign, isWhiteSpace c = false := by
    intro sign m hSign
    cases hSign <;> decide
  obtain ⟨hSign, hMantissa, hExponent⟩ := h
  rw [List.forall_mem_append, List.forall_mem_append]
  refine ⟨hSigned hSign, ?_, ?_⟩
  · cases hMantissa with
    | plain hWhole _ => exact hRun hWhole
    | pointed hWhole hFraction _ =>
      exact List.forall_mem_append.mpr ⟨hRun hWhole, List.forall_mem_cons.mpr ⟨rfl, hRun hFraction⟩⟩
  · cases hExponent with
    | absent => exact fun c hc => absurd hc List.not_mem_nil
    | @marked mark sign ds m hMark hSign' _ hDigits =>
      have hInk : isWhiteSpace mark = false := by
        rcases hMark with rfl | rfl <;> rfl
      exact List.forall_mem_cons.mpr
        ⟨hInk, List.forall_mem_append.mpr ⟨hSigned hSign', hRun hDigits⟩⟩

end Decimal

/-- What is read as a literal is not a text of another kind. -/
theorem isPlain_of_parse? {cs : List Char} {l : Literal} (h : Literal.parse? cs = some l) :
    IsPlain cs where
  ne_nil := by
    rintro rfl
    cases h
  ne_infinity := by
    rintro sign negative hSign rfl
    rw [parse?_sign_infinity hSign] at h
    cases h
  ne_marked := by
    rintro mark base ds hMark rfl
    rw [parse?_marked hMark] at h
    cases h

/-- **A literal is read as the nearest double** to the number that it denotes. -/
theorem Decimal.SpellsDecimal.isNearest_readNumeral {cs : List Char} {negative : Bool} {q : ℚ}
    (h : SpellsDecimal cs negative q) : (readNumeral cs).IsNearest negative q := by
  obtain ⟨l, hl, rfl, rfl⟩ := h.exists_parse?
  rw [(isPlain_of_parse? hl).readNumeral_eq, hl]
  exact isNearest_ofLiteral l

/-! ## Numbers and their texts -/

namespace Value

/-- **A number and its text are the same number**, but for the sign of a zero: the text is read, and
as no other double. -/
theorem toNumber?_toText (n : Number) :
    ∃ s x, (number n).toText? = some s ∧ (number n).toNumber? = some x ∧ x.isNaN = false ∧
      (string s).toNumber? = some x.unsignedZero := by
  obtain ⟨negative, q, hText, hNearest⟩ := n.spellsDecimal_toText
  refine ⟨String.ofList n.toText, n.toBinary64, rfl, rfl, ?_, ?_⟩
  · cases hNumber : n.toBinary64 with
    | nan =>
      rw [hNumber] at hNearest
      exact hNearest.elim
    | infinity _ => rfl
    | finite _ _ => rfl
  · rw [toNumber?, String.toList_ofList, trim_of_ink hText.ink]
    exact congrArg some (hText.isNearest_readNumeral.unique hNearest)

end Value

end Numeral
