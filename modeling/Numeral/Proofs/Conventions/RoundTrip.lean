import Numeral.Proofs.Conventions.Legible
import Numeral.Proofs.Decimal.Literal

/-!
# Reading back what was written

Under legible conventions a written number is read back: its sign, and the digits that were shown
for it or the infinity sign (`Legible.read?_write_finite`, `Legible.read?_write_infinity`).  The
text of what is not a number is not read at all (`Legible.read?_write_nan`).  The number that is
read is the one that the shown decimal denotes, with that sign (`value_digits`), and so every number
is read back as far as it was shown (`Legible.readsBack`).
-/

namespace Numeral

open Text Decimal

namespace Conventions

variable {c : Conventions}

/-- The number itself for a number that is scaled for the style. -/
def unscaled (c : Conventions) (x : Binary64) : Binary64 :=
  match c.config.style with
  | .percent => x.hundredth
  | _ => x

theorem read_eq_unscaled (c : Conventions) (cs : List Char) :
    c.read cs = c.unscaled (c.readBody cs) := by
  unfold read unscaled
  cases c.config.style <;> rfl

/-- What is written for a number is read back.  A finite one is read with its sign and the digits
that are shown for it, filled up with zeros at the front; it is then the number that a plain literal
with these digits denotes.  One that is too great to be shown is read as an infinity. -/
def ReadsBack (c : Conventions) (x : Binary64) : Prop :=
  match c.scaled x.abs with
  | .nan => x = .nan ∧ c.read (c.write x) = .nan
  | .infinity _ => c.read (c.write x) = .infinity x.isNegative
  | .finite _ m =>
    c.symbols.read? (c.normalize (c.write x)) =
        some ⟨x.isNegative, .digits (c.integerDigitText m) (c.fractionDigitText m)⟩ ∧
      ∃ l, Literal.parse? (pointText (c.shownDigits m).1 (c.shownDigits m).2) = some l ∧
        c.read (c.write x) =
          c.unscaled (if x.isNegative then (Binary64.ofLiteral l).neg else Binary64.ofLiteral l)

@[simp]
theorem unscaled_nan (c : Conventions) : c.unscaled .nan = .nan := by
  unfold unscaled
  split <;> rfl

@[simp]
theorem unscaled_infinity (c : Conventions) (negative : Bool) :
    c.unscaled (.infinity negative) = .infinity negative := by
  unfold unscaled
  split <;> rfl

/-- Only what is not a number is scaled to what is not a number. -/
theorem scaled_abs_eq_nan_iff {x : Binary64} : c.scaled x.abs = .nan ↔ x = .nan := by
  constructor
  · intro h
    cases x with
    | nan => rfl
    | infinity negative =>
      unfold scaled at h
      split at h <;> cases h
    | finite negative m =>
      unfold scaled at h
      split at h
      · simp only [Binary64.abs, Binary64.hundredfold, Binary64.nearest] at h
        cases hn : Magnitude.nearest? (100 * m.num) m.den with
        | none => rw [hn] at h; cases h
        | some y => rw [hn] at h; cases h
      · cases h
  · rintro rfl
    unfold scaled
    split <;> rfl

/-- In the percent style the double nearest to a hundred times the number is shown. -/
theorem scaled_percent (hc : c.config.style = .percent) (x : Magnitude) :
    c.scaled (.finite false x) =
      Binary64.ofMagnitude? false (Magnitude.nearest? (100 * x.num) x.den) := by
  rw [scaled, hc]
  rfl

theorem isNaN_eq_false_of_scaled {x : Binary64} (h : c.scaled x.abs ≠ .nan) : x.isNaN = false := by
  cases x with
  | nan => exact absurd (scaled_abs_eq_nan_iff.mpr rfl) h
  | infinity negative => rfl
  | finite negative m => rfl

namespace Legible

/-! ## The parts of a written text -/

/-- A number is read with its sign, if its body is. -/
theorem read?_write_of_bodyText (hc : c.Legible) {x : Binary64} (hx : x.isNaN = false)
    {text : List Char} {body : Body} (hText : c.normalize (c.bodyText (c.scaled x.abs)) = text)
    (hne : text ≠ []) (hInk : HeadNot isWhiteSpace text)
    (hMinus : HeadNot c.symbols.isMinusHead text)
    (hBody : c.symbols.splitBody? (text ++ stripMarks c.affixes.trailing) =
      some (body, stripMarks c.affixes.trailing)) :
    c.symbols.read? (c.normalize (c.write x)) = some ⟨x.isNegative, body⟩ := by
  have hInk' := (headNot_append_iff hne (stripMarks c.affixes.trailing)).mpr hInk
  have hMinus' := (headNot_append_iff hne (stripMarks c.affixes.trailing)).mpr hMinus
  have hSign : c.normalize (if x.isNegative then c.settings.minus.toList else []) =
      if x.isNegative then c.symbols.minus else [] := by
    cases x.isNegative with
    | true => rw [if_pos rfl, if_pos rfl, normalize_of_inert hc.minus.inert, hc.symbols_minus]
    | false => rfl
  have hWrite : c.normalize (c.write x) = (if x.isNegative then c.symbols.minus else []) ++
      (stripMarks c.affixes.leading ++ (text ++ stripMarks c.affixes.trailing)) := by
    simp only [write, hx, Bool.false_eq_true, if_false, normalize_append, hSign, hText,
      normalize_of_inert hc.leading_inert, normalize_of_inert hc.trailing_inert, List.append_assoc]
  rw [hWrite]
  refine Symbols.read?_append ?_ ?_ rfl rfl hInk' hBody ?_ hMinus'
  · rw [hc.symbols_minus]
    exact hc.minus.ne_nil
  · rw [hc.symbols_minus]
    exact hc.minus.ink
  · exact headNot_trimLeft_append hc.leading_noMinus hMinus' hInk'

theorem integerDigitText_ne_nil (hm : 1 ≤ c.config.minimumIntegerDigits) (m : Magnitude) :
    c.integerDigitText m ≠ [] :=
  fun h => padLeft_ne_nil hm _ (digitText_eq_nil_iff.mp h)

theorem head?_integerText (c : Conventions) (m : Magnitude) :
    (c.integerText (c.shownDigits m).1).head? = (c.integerDigitText m).head? := by
  rw [integerText]
  split
  · exact head?_groupDigits _ _
  · rfl

/-- The digits that are shown start with a digit. -/
theorem headNot_magnitude (hm : 1 ≤ c.config.minimumIntegerDigits) (m : Magnitude)
    {p : Char → Bool} (hp : ∀ ch : Char, ch.isDigit = true → p ch = false) (rest : List Char) :
    HeadNot p (c.integerText (c.shownDigits m).1 ++ rest) := by
  have hHead := head?_integerText c m
  obtain ⟨d, ds, hd⟩ := List.exists_cons_of_ne_nil (integerDigitText_ne_nil hm m)
  have hDigit : d.isDigit = true :=
    isDigit_of_mem_integerDigitText (x := m) (by rw [hd]; exact List.mem_cons_self)
  rw [hd, List.head?_cons] at hHead
  obtain ⟨ds', hText⟩ := List.head?_eq_some_iff.mp hHead
  rw [hText]
  exact headNot_cons_iff.mpr (hp d hDigit)

/-- The fraction starts with the decimal sign, and without a fraction the affix stands there. -/
theorem headNot_fractionText {p : Char → Bool} (ds : List Nat)
    (hDecimal : p c.settings.decimal = false)
    (hTrailing : HeadNot p (stripMarks c.affixes.trailing)) :
    HeadNot p (c.fractionText ds ++ stripMarks c.affixes.trailing) := by
  rw [fractionText]
  split
  · exact hTrailing
  · exact headNot_cons_iff.mpr hDecimal

theorem splitInteger_magnitude (hc : c.Legible) (hm : 1 ≤ c.config.minimumIntegerDigits)
    (m : Magnitude) {rest : List Char} (hRest : HeadNot Char.isDigit rest)
    (hRest' : HeadNot (· == c.settings.group) rest) :
    c.symbols.splitInteger (c.integerText (c.shownDigits m).1 ++ rest) =
      (c.integerDigitText m, rest) := by
  have hInteger : ∀ ch ∈ c.integerDigitText m, ch.isDigit = true :=
    fun _ => isDigit_of_mem_integerDigitText
  have hne := integerDigitText_ne_nil hm m
  have hText : Grouped c.symbols.group (c.integerText (c.shownDigits m).1)
      (c.integerDigitText m) := by
    rw [integerText]
    split
    · exact .of_groupDigits hne hInteger
    · exact .run ⟨hne, hInteger⟩
  exact Symbols.splitInteger_of_grouped c.symbols hc.group.inert.isDigit hText hRest
    (splitGroups_of_headNot hRest')

theorem splitFraction_magnitude (hc : c.Legible) (m : Magnitude) :
    c.symbols.splitFraction
        (c.fractionText (c.shownDigits m).2 ++ stripMarks c.affixes.trailing) =
      (c.fractionDigitText m, stripMarks c.affixes.trailing) := by
  rw [fractionText, fractionDigitText]
  split
  · rename_i hEmpty
    rw [List.isEmpty_iff.mp hEmpty]
    exact Symbols.splitFraction_of_headNot c.symbols hc.trailing_noDecimal
  · rename_i hEmpty
    refine Symbols.splitFraction_cons c.symbols ?_ ?_ (headNot_isDigit_of_inert hc.trailing_inert)
    · exact fun h => hEmpty (List.isEmpty_iff.mpr (digitText_eq_nil_iff.mp h))
    · exact fun _ => isDigit_of_mem_fractionDigitText

/-- The digits that are shown are scanned as they stand, and the affix behind them is left. -/
theorem splitBody?_magnitude (hc : c.Legible) (hm : 1 ≤ c.config.minimumIntegerDigits)
    (m : Magnitude) :
    c.symbols.splitBody? (c.integerText (c.shownDigits m).1 ++ c.fractionText (c.shownDigits m).2 ++
        stripMarks c.affixes.trailing) =
      some (.digits (c.integerDigitText m) (c.fractionDigitText m),
        stripMarks c.affixes.trailing) := by
  have hDigit := headNot_fractionText (c.shownDigits m).2 hc.decimal.inert.isDigit
    (headNot_isDigit_of_inert hc.trailing_inert)
  have hGroup := headNot_fractionText (c.shownDigits m).2 (p := (· == c.settings.group))
    (beq_eq_false_iff_ne.mpr hc.decimal_ne_group) hc.trailing_noGroup
  rw [List.append_assoc]
  exact hc.hasInfinity.splitBody?_of_splitInteger (hc.splitInteger_magnitude hm m hDigit hGroup)
    (integerDigitText_ne_nil hm m) (hc.splitFraction_magnitude m)

/-! ## Whole texts -/

/-- A finite number is read with its sign, as the digits that were shown for it. -/
theorem read?_write_finite (hc : c.Legible) (hm : 1 ≤ c.config.minimumIntegerDigits)
    {x : Binary64} {negative : Bool} {m : Magnitude} (hx : c.scaled x.abs = .finite negative m) :
    c.symbols.read? (c.normalize (c.write x)) =
      some ⟨x.isNegative, .digits (c.integerDigitText m) (c.fractionDigitText m)⟩ := by
  have hNumber : x.isNaN = false := by
    refine isNaN_eq_false_of_scaled (c := c) ?_
    rw [hx]
    exact fun h => by cases h
  have hText : c.normalize (c.bodyText (c.scaled x.abs)) =
      c.integerText (c.shownDigits m).1 ++ c.fractionText (c.shownDigits m).2 := by
    rw [hx]
    exact hc.normalize_magnitudeText m
  -- White space and minus signs are told apart from digits, so the body is left as it stands.
  refine hc.read?_write_of_bodyText hNumber hText ?_
    (headNot_magnitude hm m (fun _ => not_isWhiteSpace_of_isDigit) _)
    (headNot_magnitude hm m (fun _ => hc.isMinusHead_of_isDigit) _) (hc.splitBody?_magnitude hm m)
  intro hNil
  have hHead := head?_integerText c m
  rw [List.append_eq_nil_iff.mp hNil |>.1, List.head?_nil] at hHead
  exact integerDigitText_ne_nil hm m (List.head?_eq_none_iff.mp hHead.symm)

/-- A number too great for the format is read with its sign, as an infinity. -/
theorem read?_write_infinity (hc : c.Legible) {x : Binary64} {negative : Bool}
    (hx : c.scaled x.abs = .infinity negative) :
    c.symbols.read? (c.normalize (c.write x)) = some ⟨x.isNegative, .infinity⟩ := by
  have hNumber : x.isNaN = false := by
    refine isNaN_eq_false_of_scaled (c := c) ?_
    rw [hx]
    exact fun h => by cases h
  have hText : c.normalize (c.bodyText (c.scaled x.abs)) =
      stripMarks c.settings.infinity.toList := by
    rw [hx]
    exact normalize_of_inert hc.infinity.inert
  exact hc.read?_write_of_bodyText hNumber hText hc.infinity.ne_nil hc.infinity.ink
    hc.infinity_noMinus (hc.hasInfinity.splitBody?_append _)

/-- The text of what is not a number is not read. -/
theorem read?_write_nan (hc : c.Legible) : c.symbols.read? (c.normalize (c.write .nan)) = none := by
  refine hc.nan.read?_eq_none ?_
  rw [hc.symbols_minus]
  exact hc.minus.ne_nil

/-! ## Whole numbers and texts -/

theorem readBody_of_read? {cs : List Char} {r : Reading}
    (h : c.symbols.read? (c.normalize cs) = some r) : c.readBody cs = r.value := by
  rw [readBody, h, Option.map_some, Option.getD_some]

theorem ofDecimal_true (n : Nat) (e : Int) :
    Binary64.ofDecimal true n e = (Binary64.ofDecimal false n e).neg := by
  unfold Binary64.ofDecimal
  cases Magnitude.ofDecimal? n e <;> rfl

/-- The digits that were shown denote the shown decimal, with the sign that was read. -/
theorem value_digits (c : Conventions) (negative : Bool) (m : Magnitude) :
    ∃ l, Literal.parse? (pointText (c.shownDigits m).1 (c.shownDigits m).2) = some l ∧
      Reading.value ⟨negative, .digits (c.integerDigitText m) (c.fractionDigitText m)⟩ =
        if negative then (Binary64.ofLiteral l).neg else Binary64.ofLiteral l := by
  obtain ⟨hi, hf⟩ := c.shownDigits_lt_ten m
  refine ⟨_, parse?_pointText hi hf, ?_⟩
  -- The zeros that fill up the integer are at the front, where they do not count.
  have hDigits : readDigits (c.integerDigitText m ++ c.fractionDigitText m) =
      ofDigits ((c.shownDigits m).1 ++ (c.shownDigits m).2) := by
    rw [integerDigitText, fractionDigitText, ← digitText_append, readDigits_digitText,
      ofDigits_padLeft_append]
    intro d hd
    rcases List.mem_append.mp hd with h | h
    · exact lt_ten_padLeft hi d h
    · exact hf d h
  have hLength : (c.fractionDigitText m).length = (c.shownDigits m).2.length :=
    length_digitText _
  cases negative with
  | false => simp only [Reading.value, hDigits, hLength, Binary64.ofLiteral, Bool.false_eq_true,
      if_false]
  | true => simp only [Reading.value, hDigits, hLength, Binary64.ofLiteral, if_true, ofDecimal_true]

/-- **Reading inverts writing**, up to the digits that are not shown. -/
theorem readsBack (hc : c.Legible) (hm : 1 ≤ c.config.minimumIntegerDigits) (x : Binary64) :
    c.ReadsBack x := by
  rw [ReadsBack]
  split
  · rename_i hx
    obtain rfl := scaled_abs_eq_nan_iff.mp hx
    refine ⟨rfl, ?_⟩
    rw [read_eq_unscaled, readBody, hc.read?_write_nan, Option.map_none, Option.getD_none,
      unscaled_nan]
  · rename_i negative hx
    rw [read_eq_unscaled, readBody_of_read? (hc.read?_write_infinity hx)]
    exact unscaled_infinity c x.isNegative
  · rename_i negative m hx
    have hRead := hc.read?_write_finite hm hx
    obtain ⟨l, hl, hValue⟩ := value_digits c x.isNegative m
    refine ⟨hRead, l, hl, ?_⟩
    rw [read_eq_unscaled, readBody_of_read? hRead, hValue]

end Legible

end Conventions

end Numeral
