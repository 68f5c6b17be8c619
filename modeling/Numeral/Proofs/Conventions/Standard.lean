import Mathlib.Tactic.MkIffOfInductiveProp
import Numeral.Proofs.Conventions.Build
import Numeral.Proofs.Conventions.RoundTrip
import Numeral.Proofs.Locale.Database
import Numeral.Proofs.Options.Bounds

/-!
# The standard locales are legible

Whatever tag and style are asked for, the standard database gives conventions under which a
reader tells the parts of a number apart (`legible_standard`).  Its settings are finitely many,
and what they have in common is decided by going through them.  A currency code is any three
capital letters, so the affixes are settled by what a *label* is: a text that can stand next to a
number in each of these locales (`IsLabel`).
-/

namespace Numeral

open Text

open Database

namespace Affixes

/-- Whether a minus sign of a standard locale starts with this character. -/
def isMinusSign (c : Char) : Bool := c == '-' || c == '\u2212'

/-- Whether a decimal sign or an infinity sign of a standard locale starts with this character. -/
def isBodySign (c : Char) : Bool := c == '.' || c == ',' || c == '٫' || c == '∞'

/-- The text can stand before a number in every standard locale. -/
structure IsLeading (a : List Char) : Prop where
  inert : ∀ c ∈ stripMarks a, IsInert c
  noMinus : HeadNot isMinusSign (trim (stripMarks a))
  noBody : HeadNot isBodySign (trim (stripMarks a))
  noNaN : ∀ s ∈ standardSettings, skipText (trim (stripMarks a)) s.nan.toList = s.nan.toList

/-- The text can stand behind a number in every standard locale. -/
structure IsTrailing (b : List Char) : Prop where
  inert : ∀ c ∈ stripMarks b, IsInert c
  noDecimal : ∀ s ∈ standardSettings, HeadNot (· == s.decimal) (stripMarks b)
  noGroup : ∀ s ∈ standardSettings, HeadNot (· == s.group) (stripMarks b)

theorem isLeading_nil : IsLeading [] where
  inert := fun _ hc => absurd hc List.not_mem_nil
  noMinus := headNot_nil _
  noBody := headNot_nil _
  noNaN := fun _ _ => rfl

theorem isTrailing_nil : IsTrailing [] where
  inert := fun _ hc => absurd hc List.not_mem_nil
  noDecimal := fun _ _ => headNot_nil _
  noGroup := fun _ _ => headNot_nil _

/-! ## Labels of currencies -/

/-- The text labels a currency next to a number: it has no digits and no white space at its ends,
and neither a sign nor the text of what is not a number starts like it. -/
@[mk_iff] structure IsLabel (l : List Char) : Prop where
  ne_nil : l ≠ []
  inert : ∀ c ∈ l, IsInert c
  notMark : ∀ c ∈ l, isDirectionMark c = false
  ink : HeadNot isWhiteSpace l
  ink_reverse : HeadNot isWhiteSpace l.reverse
  noMinus : HeadNot isMinusSign l
  noBody : HeadNot isBodySign l
  noNaN : ∀ s ∈ standardSettings, afterText? l s.nan.toList = Option.none

instance (l : List Char) : Decidable (IsLabel l) := decidable_of_iff _ (isLabel_iff l).symm

namespace IsLabel

variable {l : List Char}

theorem stripMarks_eq (h : IsLabel l) : stripMarks l = l :=
  List.filter_eq_self.mpr fun c hc => by rw [h.notMark c hc, Bool.not_false]

/-- A label stands before a number, with or without white space behind it. -/
theorem isLeading_append (h : IsLabel l) {r : List Char}
    (hr : ∀ c ∈ stripMarks r, IsInert c ∧ isWhiteSpace c = true) : IsLeading (l ++ r) := by
  have hStrip : stripMarks (l ++ r) = l ++ stripMarks r := by
    rw [stripMarks, List.filter_append]
    exact congrArg (· ++ stripMarks r) h.stripMarks_eq
  have hTrim : trim (stripMarks (l ++ r)) = l := by
    rw [hStrip]
    exact trim_append_of_all h.ink h.ink_reverse h.ne_nil fun c hc => (hr c hc).2
  refine ⟨?_, ?_, ?_, ?_⟩
  · intro c hc
    rw [hStrip] at hc
    rcases List.mem_append.mp hc with hc | hc
    · exact h.inert c hc
    · exact (hr c hc).1
  · rw [hTrim]
    exact h.noMinus
  · rw [hTrim]
    exact h.noBody
  · intro s hs
    rw [hTrim, skipText, h.noNaN s hs, Option.getD_none]

end IsLabel

/-- A label stands behind a number after a space. -/
theorem isTrailing_space_append {space : Char} (h : space = ' ' ∨ space = '\u00a0') {l : List Char}
    (hl : ∀ c ∈ l, IsInert c) : IsTrailing (space :: l) := by
  have hStrip : stripMarks (space :: l) = space :: stripMarks l := by
    rcases h with rfl | rfl <;> rfl
  have hNoDecimal : ∀ s ∈ standardSettings, (' ' == s.decimal) = false ∧
      ('\u00a0' == s.decimal) = false := by decide
  have hNoGroup : ∀ s ∈ standardSettings, (' ' == s.group) = false ∧
      ('\u00a0' == s.group) = false := by decide
  refine ⟨?_, ?_, ?_⟩
  · intro c hc
    rw [hStrip] at hc
    rcases List.mem_cons.mp hc with rfl | hc
    · rcases h with rfl | rfl <;> decide
    · exact hl c (List.mem_filter.mp hc).1
  · intro s hs
    rw [hStrip]
    rcases h with rfl | rfl
    · exact headNot_cons_iff.mpr (hNoDecimal s hs).1
    · exact headNot_cons_iff.mpr (hNoDecimal s hs).2
  · intro s hs
    rw [hStrip]
    rcases h with rfl | rfl
    · exact headNot_cons_iff.mpr (hNoGroup s hs).1
    · exact headNot_cons_iff.mpr (hNoGroup s hs).2

/-- A currency code is a label. -/
theorem isLabel_code (code : CurrencyCode) : IsLabel code.text.toList := by
  obtain ⟨hLength, hUpper⟩ := code.isCurrencyCode
  have hLetter : ∀ c ∈ code.text.toList, c.isAlphanum = true := fun c hc =>
    isAlphanum_of_isAlpha (isAlpha_of_isUpper (hUpper c hc))
  have hInk : ∀ c ∈ code.text.toList, isWhiteSpace c = false := fun c hc =>
    of_isAlphanum (P := (isWhiteSpace · = false)) (by decide) (hLetter c hc)
  refine ⟨?_, ?_, ?_, ?_, ?_, ?_, ?_, ?_⟩
  · intro hNil
    rw [hNil] at hLength
    cases hLength
  · exact fun c hc => IsInert.of_isAlpha (isAlpha_of_isUpper (hUpper c hc))
  · exact fun c hc =>
      of_isAlphanum (P := (isDirectionMark · = false)) (by decide) (hLetter c hc)
  · exact fun c hc => hInk c (List.mem_of_mem_head? hc)
  · exact fun c hc => hInk c (List.mem_reverse.mp (List.mem_of_mem_head? hc))
  · exact fun c hc =>
      of_isAlphanum (P := (isMinusSign · = false)) (by decide)
        (hLetter c (List.mem_of_mem_head? hc))
  · exact fun c hc =>
      of_isAlphanum (P := (isBodySign · = false)) (by decide)
        (hLetter c (List.mem_of_mem_head? hc))
  · intro s hs
    cases ha : afterText? code.text.toList s.nan.toList with
    | none => rfl
    | some rest =>
      -- the second character of the text is no capital letter
      have hSecond : ∀ t ∈ standardSettings, HeadNot Char.isUpper (t.nan.toList.drop 1) := by decide
      have hCode : 1 < code.text.toList.length := by omega
      have hUpper' := hUpper _ (List.getElem_mem hCode)
      have hLower := hSecond s hs (code.text.toList[1]) (by
        rw [List.head?_drop, afterText?_eq_some_iff.mp ha, List.getElem?_append_left hCode]
        exact List.getElem?_eq_getElem hCode)
      rw [hUpper'] at hLower
      cases hLower

/-- A symbol of a currency is a label, be it that of the locale, the usual one or the code. -/
theorem isLabel_symbol {s : Settings} (hs : s ∈ standardSettings) (code : CurrencyCode) :
    IsLabel (currencyLabel standard s code .symbol).toList := by
  have hLocal : ∀ t ∈ standardSettings, ∀ e ∈ t.currencySymbols.toList, IsLabel e.2.toList := by
    decide +kernel
  have hUsual : ∀ e ∈ standard.currencies.toList, IsLabel e.2.symbol.toList := by decide +kernel
  rw [currencyLabel]
  cases hl : s.currencySymbols[code.text]? with
  | some v => exact hLocal s hs _ (Std.TreeMap.mem_toList_iff_getElem?_eq_some.mpr hl)
  | none =>
    cases hu : standard.currency? code.text with
    | some v => exact hUsual _ (Std.TreeMap.mem_toList_iff_getElem?_eq_some.mpr hu)
    | none => exact isLabel_code code

theorem inert_name (s : Settings) (code : CurrencyCode) :
    ∀ c ∈ (currencyLabel standard s code .name).toList, IsInert c := by
  have hNames : ∀ e ∈ standard.currencies.toList, ∀ c ∈ e.2.name.toList,
      c.isAlpha = true ∨ c = ' ' := by
    decide
  rw [currencyLabel]
  cases hn : standard.currency? code.text with
  | some v =>
    intro c hc
    rcases hNames _ (Std.TreeMap.mem_toList_iff_getElem?_eq_some.mpr hn) c hc with h | rfl
    · exact IsInert.of_isAlpha h
    · decide
  | none => exact (isLabel_code code).inert

/-! ## Affixes of styles -/

/-- The pattern puts the currency next to the number, or one space away from it. -/
def IsCurrencyPattern (pattern : List Char) : Prop :=
  pattern = ['¤', '#'] ∨ pattern = ['¤', '\u00a0', '#'] ∨ pattern = ['#', '\u00a0', '¤'] ∨
    pattern = ['#', ' ', '¤']

instance (pattern : List Char) : Decidable (IsCurrencyPattern pattern) :=
  inferInstanceAs (Decidable (_ ∨ _ ∨ _ ∨ _))

theorem isCurrencyPattern_standard {s : Settings} (hs : s ∈ standardSettings)
    (display : CurrencyDisplay) : IsCurrencyPattern (currencyPattern s display) := by
  have hAll : ∀ t ∈ standardSettings, ∀ d ∈ Keyword.all (α := CurrencyDisplay),
      IsCurrencyPattern (currencyPattern t d) := by
    decide
  exact hAll s hs display (by cases display <;> decide)

variable {pattern l percent : List Char}

theorem isLeading_ofPattern (hp : IsCurrencyPattern pattern) (hl : IsLabel l) :
    IsLeading (ofPattern pattern l percent).leading := by
  rcases hp with rfl | rfl | rfl | rfl
  · have hText : (ofPattern ['¤', '#'] l percent).leading = l ++ [] := by
      simp [ofPattern, expand]
    rw [hText]
    exact hl.isLeading_append fun c hc => absurd hc List.not_mem_nil
  · have hText : (ofPattern ['¤', '\u00a0', '#'] l percent).leading = l ++ ['\u00a0'] := by
      simp [ofPattern, expand]
    rw [hText]
    exact hl.isLeading_append (by decide)
  · exact isLeading_nil
  · exact isLeading_nil

theorem isTrailing_ofPattern (hp : IsCurrencyPattern pattern) (hl : ∀ c ∈ l, IsInert c) :
    IsTrailing (ofPattern pattern l percent).trailing := by
  rcases hp with rfl | rfl | rfl | rfl
  · exact isTrailing_nil
  · exact isTrailing_nil
  · have hText : (ofPattern ['#', '\u00a0', '¤'] l percent).trailing = '\u00a0' :: l := by
      simp [ofPattern, expand]
    rw [hText]
    exact isTrailing_space_append (Or.inr rfl) hl
  · have hText : (ofPattern ['#', ' ', '¤'] l percent).trailing = ' ' :: l := by
      simp [ofPattern, expand]
    rw [hText]
    exact isTrailing_space_append (Or.inl rfl) hl

theorem isLeading_standard {s : Settings} (hs : s ∈ standardSettings) (style : Style) :
    IsLeading (ofStyle standard s style).leading := by
  cases style with
  | decimal => exact isLeading_nil
  | percent =>
    have hNone : ∀ t ∈ standardSettings, (ofStyle standard t .percent).leading = [] := by decide
    rw [hNone s hs]
    exact isLeading_nil
  | currency code display =>
    have hp := isCurrencyPattern_standard hs display
    cases display with
    | code => exact isLeading_ofPattern hp (isLabel_code code)
    | symbol => exact isLeading_ofPattern hp (isLabel_symbol hs code)
    | name => exact isLeading_nil

theorem isTrailing_standard {s : Settings} (hs : s ∈ standardSettings) (style : Style) :
    IsTrailing (ofStyle standard s style).trailing := by
  cases style with
  | decimal => exact isTrailing_nil
  | percent =>
    have hInert : ∀ t ∈ standardSettings,
        ∀ c ∈ stripMarks (ofStyle standard t .percent).trailing, IsInert c := by
      decide
    have hHead : ∀ t ∈ standardSettings, ∀ u ∈ standardSettings,
        HeadNot (· == u.decimal) (stripMarks (ofStyle standard t .percent).trailing) ∧
          HeadNot (· == u.group) (stripMarks (ofStyle standard t .percent).trailing) := by
      decide +kernel
    exact ⟨hInert s hs, fun u hu => (hHead s hs u hu).1, fun u hu => (hHead s hs u hu).2⟩
  | currency code display =>
    have hp := isCurrencyPattern_standard hs display
    cases display with
    | code => exact isTrailing_ofPattern hp (isLabel_code code).inert
    | symbol => exact isTrailing_ofPattern hp (isLabel_symbol hs code).inert
    | name => exact isTrailing_ofPattern hp (inert_name s code)

end Affixes

namespace Conventions

open Affixes (IsLeading IsTrailing isMinusSign isLeading_standard isTrailing_standard ofStyle)

variable {c : Conventions}

/-- In the standard locales, the minus sign is a hyphen or the mathematical sign. -/
theorem symbols_minus_standard (hs : c.settings ∈ standardSettings) :
    c.symbols.minus = ['-'] ∨ c.symbols.minus = ['\u2212'] := by
  have hAll : ∀ s ∈ standardSettings, (stripMarks s.minus.toList) = ['-'] ∨
      (stripMarks s.minus.toList) = ['\u2212'] := by
    decide
  refine (hAll _ hs).imp (fun hm => ?_) (fun hm => ?_) <;>
    simp only [symbols, hm, List.isEmpty_cons, Bool.false_eq_true, if_false]

theorem headNot_isMinusHead (hs : c.settings ∈ standardSettings) {cs : List Char}
    (h : HeadNot isMinusSign cs) : HeadNot c.symbols.isMinusHead cs := by
  intro ch hch
  have hSign := h ch hch
  simp only [isMinusSign, Bool.or_eq_false_iff, beq_eq_false_iff_ne] at hSign
  have hMinus : c.symbols.minus.head? ≠ some ch := by
    rcases symbols_minus_standard hs with hm | hm
    · rw [hm]
      exact fun he => hSign.1 (Option.some.inj he).symm
    · rw [hm]
      exact fun he => hSign.2 (Option.some.inj he).symm
  simp only [Symbols.isMinusHead, Bool.or_eq_false_iff, beq_eq_false_iff_ne]
  exact ⟨⟨hMinus, hSign.1⟩, hSign.2⟩

/-- The texts for what is not a number hold none of the parts of a number. -/
theorem refuses_nan (hs : c.settings ∈ standardSettings)
    (hAffixes : c.affixes = ofStyle standard c.settings c.config.style) :
    c.symbols.Refuses (c.normalize c.settings.nan.toList) := by
  have hMarks : ∀ s ∈ standardSettings, stripMarks s.nan.toList = s.nan.toList := by decide
  have hInert : ∀ s ∈ standardSettings, ∀ ch ∈ s.nan.toList, IsInert ch := by decide
  have hInk : ∀ s ∈ standardSettings, HeadNot isWhiteSpace s.nan.toList := by decide
  have hMinus : ∀ s ∈ standardSettings, HeadNot isMinusSign s.nan.toList := by decide
  have hInfinity : ∀ s ∈ standardSettings,
      afterText? (stripMarks s.infinity.toList) s.nan.toList = none := by
    decide
  have hDecimal : ∀ s ∈ standardSettings, HeadNot (· == s.decimal) s.nan.toList := by decide
  have hText : c.normalize c.settings.nan.toList = c.settings.nan.toList := by
    rw [normalize_of_inert, hMarks _ hs]
    rw [hMarks _ hs]
    exact hInert _ hs
  rw [hText]
  refine ⟨hInk _ hs, headNot_isMinusHead hs (hMinus _ hs), ?_, hInfinity _ hs,
    headNot_isDigit_of_inert (hInert _ hs), hDecimal _ hs⟩
  have hLeading := isLeading_standard hs c.config.style
  rw [← hAffixes] at hLeading
  exact hLeading.noNaN _ hs

theorem legible_of_settings (hs : c.settings ∈ standardSettings)
    (hAffixes : c.affixes = ofStyle standard c.settings c.config.style) : c.Legible := by
  have hDecimal : ∀ s ∈ standardSettings,
      IsInert s.decimal ∧ isDirectionMark s.decimal = false := by
    decide
  have hGroup : ∀ s ∈ standardSettings, IsInert s.group ∧ isDirectionMark s.group = false := by
    decide
  have hSeparators : ∀ s ∈ standardSettings, s.decimal ≠ s.group := by decide
  have hMinus : ∀ s ∈ standardSettings, stripMarks s.minus.toList ≠ [] ∧
      (∀ ch ∈ stripMarks s.minus.toList, IsInert ch) ∧
      HeadNot isWhiteSpace (stripMarks s.minus.toList) := by
    decide +kernel
  have hInfinity : ∀ s ∈ standardSettings, stripMarks s.infinity.toList ≠ [] ∧
      (∀ ch ∈ stripMarks s.infinity.toList, IsInert ch) ∧
      HeadNot isWhiteSpace (stripMarks s.infinity.toList) ∧
      HeadNot isMinusSign (stripMarks s.infinity.toList) := by
    decide +kernel
  have hLeading := isLeading_standard hs c.config.style
  have hTrailing := isTrailing_standard hs c.config.style
  rw [← hAffixes] at hLeading hTrailing
  obtain ⟨hm, hm', hm''⟩ := hMinus _ hs
  obtain ⟨hi, hi', hi'', hSign⟩ := hInfinity _ hs
  exact {
    decimal := ⟨(hDecimal _ hs).1, (hDecimal _ hs).2⟩
    group := ⟨(hGroup _ hs).1, (hGroup _ hs).2⟩
    decimal_ne_group := hSeparators _ hs
    minus := ⟨hm, hm', hm''⟩
    infinity := ⟨hi, hi', hi''⟩
    infinity_noMinus := headNot_isMinusHead hs hSign
    leading_inert := hLeading.inert
    leading_noMinus := headNot_isMinusHead hs hLeading.noMinus
    trailing_inert := hTrailing.inert
    trailing_noDecimal := hTrailing.noDecimal _ hs
    trailing_noGroup := hTrailing.noGroup _ hs
    nan := refuses_nan hs hAffixes }

/-- Whatever tag and style are asked for, the standard database gives legible conventions. -/
theorem legible_standard (tag : LanguageTag) (config : Config) (suggested : String) :
    (ofTag standard tag config suggested).Legible :=
  legible_of_settings (settingsOrDefault_standard_mem _) rfl

/-- **In the standard locales every number is read back**: for every tag, style, currency and
numbering system, and within all bounds on the digits. -/
theorem readsBack_standard {o : Options} {config : Config} (ho : o.validate = .ok config)
    {tag : String} {given reported : Reported} {c : Conventions}
    (hb : build standard tag config given = .ok (c, reported)) (x : Binary64) : c.ReadsBack x := by
  obtain ⟨t, -, rfl, -⟩ := build_eq_ok_iff.mp hb
  exact (legible_standard t config _).readsBack (bounded_of_validate ho).integer.1 x

/-- Under Arabic conventions the minus sign and the percent sign hold marks of text direction.
Three digits of the percentage are shown behind the decimal sign, and so many are read back. -/
theorem readsBack_standard_arabic :
    Options.validate (.ofList [("style", Value.string "percent")]) = .ok { style := .percent } ∧
      ∃ c reported m, build standard "ar-EG" { style := .percent } ⟨"ar-EG", "arab"⟩ =
          .ok (c, reported) ∧
        c.scaled (Binary64.ofDecimal true 123456789 (-6)).abs = .finite false m ∧
        c.shownDigits m = ([1, 2, 3, 4, 5], [6, 7, 9]) ∧
        c.write (.ofDecimal true 123456789 (-6)) = "\u061c-١٢٬٣٤٥٫٦٧٩٪\u061c".toList ∧
        c.symbols.read? (c.normalize "\u061c-١٢٬٣٤٥٫٦٧٩٪\u061c".toList) =
          some ⟨true, .digits "12345".toList "679".toList⟩ ∧
        c.read "\u061c-١٢٬٣٤٥٫٦٧٩٪\u061c".toList = .ofDecimal true 12345679 (-5) ∧
        c.ReadsBack (.ofDecimal true 123456789 (-6)) := by
  have ho : Options.validate (.ofList [("style", Value.string "percent")]) =
      .ok { style := .percent } := rfl
  have hTag : LanguageTag.parse? "ar-EG" =
      some ⟨⟨['a', 'r'], none, some ['E', 'G'], []⟩, .empty⟩ := by
    decide +kernel
  have hb := @build_of_parse? standard _ _ hTag { style := .percent } ⟨"ar-EG", "arab"⟩
  let c : Conventions := ofTag standard ⟨⟨['a', 'r'], none, some ['E', 'G'], []⟩, .empty⟩
    { style := .percent } "arab"
  have hDigits : (Magnitude.ofDecimal? 123456789 (-6)).bind (fun x =>
      (Magnitude.nearest? (100 * x.num) x.den).map c.shownDigits) =
      some ([1, 2, 3, 4, 5], [6, 7, 9]) := by
    decide +kernel
  obtain ⟨x, hx, hm⟩ := Option.bind_eq_some_iff.mp hDigits
  obtain ⟨m, hm, hShown⟩ := Option.map_eq_some_iff.mp hm
  have hNegative : (Binary64.ofDecimal true 123456789 (-6)).isNegative = true := by
    decide +kernel
  have hScaled : c.scaled (Binary64.ofDecimal true 123456789 (-6)).abs = .finite false m := by
    rw [Binary64.ofDecimal, hx, Binary64.ofMagnitude?, Binary64.abs, scaled_percent rfl, hm,
      Binary64.ofMagnitude?]
  have hWrite : c.write (.ofDecimal true 123456789 (-6)) =
      "\u061c-١٢٬٣٤٥٫٦٧٩٪\u061c".toList := by
    decide +kernel
  have hReads : c.ReadsBack (.ofDecimal true 123456789 (-6)) := readsBack_standard ho hb _
  have hRead := hReads
  rw [ReadsBack, hScaled] at hRead
  have hText := hRead.1
  rw [hWrite, hNegative, integerDigitText, fractionDigitText, hShown] at hText
  exact ⟨ho, c, _, m, hb, hScaled, hShown, hWrite, hText, by decide +kernel, hReads⟩

end Conventions

end Numeral
