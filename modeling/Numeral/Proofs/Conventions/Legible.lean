import Numeral.Proofs.Conventions.Grouping
import Numeral.Proofs.Conventions.Scanning
import Numeral.Proofs.Decimal.Digits
import Numeral.Proofs.NumberingSystem

/-!
# Legible conventions

`Conventions.Legible` says what lets a reader tell the parts of a written number apart: signs,
separators and affixes hold no digits of any numbering system, no part starts with the minus sign
that must not, and what follows the digits starts with neither separator.  Nothing is said about
what stands at the ends of an affix, so white space and marks of text direction may stand there.

Under legible conventions the digits of every written text come back as ASCII digits between the
same separators (`normalize_magnitudeText`).
-/

namespace Numeral

open Text Decimal

/-- The character separates digits: it is no digit itself and no mark of text direction. -/
structure IsSeparator (c : Char) : Prop where
  inert : IsInert c
  notMark : isDirectionMark c = false

/-- The text stands for a sign: it has no digits and does not start with white space. -/
structure IsSign (cs : List Char) : Prop where
  ne_nil : cs ≠ []
  inert : ∀ c ∈ cs, IsInert c
  ink : HeadNot isWhiteSpace cs

theorem headNot_isDigit_of_inert {cs : List Char} (h : ∀ c ∈ cs, IsInert c) :
    HeadNot Char.isDigit cs :=
  fun c hc => (h c (List.mem_of_mem_head? hc)).isDigit

namespace Symbols

/-- The reader finds neither a sign nor a body at the start of the text. -/
structure Refuses (s : Symbols) (cs : List Char) : Prop where
  ink : HeadNot isWhiteSpace cs
  noMinus : HeadNot s.isMinusHead cs
  noLeading : skipText s.leading cs = cs
  noInfinity : afterText? s.infinity cs = none
  noDigit : HeadNot Char.isDigit cs
  noDecimal : HeadNot (· == s.decimal) cs

theorem Refuses.read?_eq_none {s : Symbols} {cs : List Char} (h : s.Refuses cs)
    (hMinus : s.minus ≠ []) : s.read? cs = none := by
  have hBody : s.splitBody? cs = none := by
    simp only [splitBody?, h.noInfinity, splitInteger_of_headNot s h.noDigit,
      splitFraction_of_headNot s h.noDecimal, List.isEmpty_nil, Bool.and_self, if_true, ite_self]
  simp only [read?, trimLeft_of_headNot h.ink, splitMinus_of_headNot s hMinus h.noMinus,
    h.noLeading, Bool.false_eq_true, if_false, hBody, Option.bind_eq_bind, Option.bind_none]

end Symbols

namespace Conventions

/-- A reader can tell the parts of a number apart that is written under these conventions. -/
structure Legible (c : Conventions) : Prop where
  decimal : IsSeparator c.settings.decimal
  group : IsSeparator c.settings.group
  decimal_ne_group : c.settings.decimal ≠ c.settings.group
  minus : IsSign (stripMarks c.settings.minus.toList)
  infinity : IsSign (stripMarks c.settings.infinity.toList)
  infinity_noMinus : HeadNot c.symbols.isMinusHead (stripMarks c.settings.infinity.toList)
  leading_inert : ∀ ch ∈ stripMarks c.affixes.leading, IsInert ch
  leading_noMinus : HeadNot c.symbols.isMinusHead c.symbols.leading
  trailing_inert : ∀ ch ∈ stripMarks c.affixes.trailing, IsInert ch
  trailing_noDecimal : HeadNot (· == c.settings.decimal) (stripMarks c.affixes.trailing)
  trailing_noGroup : HeadNot (· == c.settings.group) (stripMarks c.affixes.trailing)
  nan : c.symbols.Refuses (c.normalize c.settings.nan.toList)

variable {c : Conventions}

/-! ## What the reader makes of the parts -/

theorem normalize_append (c : Conventions) (as bs : List Char) :
    c.normalize (as ++ bs) = c.normalize as ++ c.normalize bs := by
  simp only [normalize, stripMarks, List.filter_append, List.map_append]

/-- Without its marks, a text without digits is left as it is. -/
theorem normalize_of_inert {cs : List Char} (h : ∀ ch ∈ stripMarks cs, IsInert ch) :
    c.normalize cs = stripMarks cs :=
  (List.map_congr_left fun ch hch => (h ch hch).toAscii c.numberingSystem).trans (List.map_id _)

theorem isDirectionMark_fromAscii (s : NumberingSystem) {ch : Char} (h : ch.isDigit = true) :
    isDirectionMark (s.fromAscii ch) = false :=
  (NumberingSystem.ink_of_mem_digits (s.fromAscii_mem_digits h)).2

/-- Digits and separators come back from the numbering system's digits. -/
theorem normalize_map_fromAscii {cs : List Char}
    (h : ∀ ch ∈ cs, ch.isDigit = true ∨ IsSeparator ch) :
    c.normalize (cs.map c.numberingSystem.fromAscii) = cs := by
  have hMarks : stripMarks (cs.map c.numberingSystem.fromAscii) =
      cs.map c.numberingSystem.fromAscii := by
    refine List.filter_eq_self.mpr fun ch hch => ?_
    obtain ⟨d, hd, rfl⟩ := List.mem_map.mp hch
    rcases h d hd with hDigit | hSeparator
    · rw [isDirectionMark_fromAscii c.numberingSystem hDigit, Bool.not_false]
    · rw [hSeparator.inert.fromAscii, hSeparator.notMark, Bool.not_false]
  rw [normalize, hMarks, List.map_map]
  refine (List.map_congr_left fun ch hch => ?_).trans (List.map_id cs)
  rcases h ch hch with hDigit | hSeparator
  · exact c.numberingSystem.toAscii_fromAscii hDigit
  · rw [Function.comp_apply, hSeparator.inert.fromAscii, hSeparator.inert.toAscii]
    rfl

theorem shownDigits_lt_ten (c : Conventions) (x : Magnitude) :
    (∀ d ∈ (c.shownDigits x).1, d < 10) ∧ ∀ d ∈ (c.shownDigits x).2, d < 10 := by
  unfold shownDigits
  split
  · exact withSignificantDigits_lt_ten (belowTen_shortest .up x) _
  · exact withFractionDigits_lt_ten (belowTen_shortest .up x) _

/-- The ASCII text of the integer digits that are shown, without separators. -/
def integerDigitText (c : Conventions) (x : Magnitude) : List Char :=
  digitText (padLeft c.config.minimumIntegerDigits (c.shownDigits x).1)

/-- The ASCII text of the fraction digits that are shown. -/
def fractionDigitText (c : Conventions) (x : Magnitude) : List Char :=
  digitText (c.shownDigits x).2

theorem isDigit_of_mem_integerDigitText {x : Magnitude} {ch : Char}
    (h : ch ∈ c.integerDigitText x) : ch.isDigit = true :=
  isDigit_of_mem_digitText (lt_ten_padLeft (c.shownDigits_lt_ten x).1) ch h

theorem isDigit_of_mem_fractionDigitText {x : Magnitude} {ch : Char}
    (h : ch ∈ c.fractionDigitText x) : ch.isDigit = true :=
  isDigit_of_mem_digitText (c.shownDigits_lt_ten x).2 ch h

namespace Legible

theorem mem_integerText (hc : c.Legible) {x : Magnitude} {ch : Char}
    (h : ch ∈ c.integerText (c.shownDigits x).1) : ch.isDigit = true ∨ IsSeparator ch := by
  rw [integerText] at h
  split at h
  · rcases mem_groupDigits h with rfl | h
    · exact Or.inr hc.group
    · exact Or.inl (isDigit_of_mem_integerDigitText h)
  · exact Or.inl (isDigit_of_mem_integerDigitText h)

theorem mem_fractionText (hc : c.Legible) {x : Magnitude} {ch : Char}
    (h : ch ∈ c.fractionText (c.shownDigits x).2) : ch.isDigit = true ∨ IsSeparator ch := by
  rw [fractionText] at h
  split at h
  · cases h
  · rcases List.mem_cons.mp h with rfl | h
    · exact Or.inr hc.decimal
    · exact Or.inl (isDigit_of_mem_fractionDigitText h)

/-- Without their numbering system, the digits stand between the same separators. -/
theorem normalize_magnitudeText (hc : c.Legible) (x : Magnitude) :
    c.normalize (c.magnitudeText x) =
      c.integerText (c.shownDigits x).1 ++ c.fractionText (c.shownDigits x).2 := by
  refine normalize_map_fromAscii fun ch hch => ?_
  rcases List.mem_append.mp hch with h | h
  · exact hc.mem_integerText h
  · exact hc.mem_fractionText h

theorem symbols_minus (hc : c.Legible) :
    c.symbols.minus = stripMarks c.settings.minus.toList := by
  have hEmpty := List.isEmpty_eq_false_iff.mpr hc.minus.ne_nil
  simp only [symbols, hEmpty, Bool.false_eq_true, if_false]

theorem hasInfinity (hc : c.Legible) : c.symbols.HasInfinity :=
  ⟨hc.infinity.ne_nil, headNot_isDigit_of_inert hc.infinity.inert⟩

/-- A minus sign does not start with a digit. -/
theorem isMinusHead_of_isDigit (hc : c.Legible) {ch : Char} (h : ch.isDigit = true) :
    c.symbols.isMinusHead ch = false := by
  have hMinus : c.symbols.minus.head? ≠ some ch := by
    intro he
    rw [hc.symbols_minus] at he
    have hDigit := (hc.minus.inert ch (List.mem_of_mem_head? he)).isDigit
    rw [h] at hDigit
    cases hDigit
  simp only [Symbols.isMinusHead, Bool.or_eq_false_iff, beq_eq_false_iff_ne]
  refine ⟨⟨hMinus, ?_⟩, ?_⟩
  · rintro rfl
    revert h
    decide
  · rintro rfl
    revert h
    decide

end Legible

end Conventions

end Numeral
