import Numeral.Proofs.Conventions.Recognition
import Numeral.Proofs.Conventions.Standard
import Numeral.Proofs.Conventions.Symbols

/-!
# The texts that are read

A text is read in its normalized form, which a relation describes character by character
(`NumberingSystem.Normalizes`); the reader computes it, and there is no other (`normalizes_iff`).

In the standard locales the parts of a number are told apart by how they start
(`distinct_standard`), for every style, currency and numbering system, although in French the
separators are white space.  So the reader accepts exactly the texts of the grammar there, and the
number that it reads is the one that the digits denote when the separators are left out
(`accepts_standard`).
-/

namespace Numeral

open Text Decimal

/-! ## Normalized texts -/

/-- The second text is the first one without its left-to-right marks, right-to-left marks and Arabic
letter marks, and with the ASCII digit `d` for the digit at place `d` of the numbering system. -/
inductive NumberingSystem.Normalizes (s : NumberingSystem) : List Char → List Char → Prop
  | nil : Normalizes s [] []
  | mark {ch : Char} {cs t : List Char} (hMark : ch ∈ ['\u200e', '\u200f', '\u061c'])
      (h : Normalizes s cs t) : Normalizes s (ch :: cs) t
  | digit {ch : Char} {cs t : List Char} {d : Nat} (hDigit : s.digits[d]? = some ch)
      (h : Normalizes s cs t) : Normalizes s (ch :: cs) (Nat.digitChar d :: t)
  | other {ch : Char} {cs t : List Char} (hMark : ch ∉ ['\u200e', '\u200f', '\u061c'])
      (hDigit : ch ∉ s.digits) (h : Normalizes s cs t) : Normalizes s (ch :: cs) (ch :: t)

theorem isDirectionMark_iff {ch : Char} :
    isDirectionMark ch = true ↔ ch ∈ ['\u200e', '\u200f', '\u061c'] := by
  simp [isDirectionMark, or_assoc]

namespace Conventions

variable {ch : Char}

theorem normalize_cons_mark (c : Conventions) (h : isDirectionMark ch = true) (cs : List Char) :
    c.normalize (ch :: cs) = c.normalize cs := by
  rw [normalize, stripMarks, List.filter_cons_of_neg (by simp [h]), ← stripMarks, ← normalize]

theorem normalize_cons (c : Conventions) (h : isDirectionMark ch = false) (cs : List Char) :
    c.normalize (ch :: cs) = c.numberingSystem.toAscii ch :: c.normalize cs := by
  rw [normalize, stripMarks, List.filter_cons_of_pos (by simp [h]), List.map_cons, ← stripMarks,
    ← normalize]

theorem normalizes_normalize (c : Conventions) (cs : List Char) :
    c.numberingSystem.Normalizes cs (c.normalize cs) := by
  induction cs with
  | nil => exact .nil
  | cons ch cs ih =>
    by_cases hMark : isDirectionMark ch = true
    · rw [normalize_cons_mark c hMark]
      exact .mark (isDirectionMark_iff.mp hMark) ih
    rw [normalize_cons c (Bool.eq_false_iff.mpr hMark)]
    by_cases hDigit : ch ∈ c.numberingSystem.digits
    · obtain ⟨d, hd⟩ := List.mem_iff_getElem?.mp hDigit
      rw [NumberingSystem.toAscii_of_getElem? hd]
      exact .digit hd ih
    · rw [NumberingSystem.toAscii_of_not_mem hDigit]
      exact .other (fun h => hMark (isDirectionMark_iff.mpr h)) hDigit ih

/-- The reader finds the normalized text, and there is no other. -/
theorem normalizes_iff (c : Conventions) {cs t : List Char} :
    c.numberingSystem.Normalizes cs t ↔ t = c.normalize cs := by
  constructor
  · intro h
    induction h with
    | nil => rfl
    | mark hMark _ ih => rw [ih, normalize_cons_mark c (isDirectionMark_iff.mpr hMark)]
    | digit hDigit _ ih =>
      -- no digit is a mark, so it is there to be replaced
      have hInk := (NumberingSystem.ink_of_mem_digits (List.mem_of_getElem? hDigit)).2
      rw [ih, normalize_cons c hInk, NumberingSystem.toAscii_of_getElem? hDigit]
    | other hMark hDigit _ ih =>
      have hInk := Bool.eq_false_iff.mpr fun h => hMark (isDirectionMark_iff.mp h)
      rw [ih, normalize_cons c hInk, NumberingSystem.toAscii_of_not_mem hDigit]
  · rintro rfl
    exact c.normalizes_normalize cs

/-- These are the separators, signs and affixes of the conventions: the texts among them as they are
in a normalized text, and the affixes without white space at their ends. -/
structure LooksFor (c : Conventions) (s : Symbols) : Prop where
  decimal : s.decimal = c.settings.decimal
  group : s.group = c.settings.group
  minus : c.numberingSystem.Normalizes c.settings.minus.toList s.minus
  infinity : c.numberingSystem.Normalizes c.settings.infinity.toList s.infinity
  leading : ∃ a, c.numberingSystem.Normalizes c.affixes.leading a ∧ s.leading = trim a
  trailing : ∃ b, c.numberingSystem.Normalizes c.affixes.trailing b ∧ s.trailing = trim b

/-- Legible symbols hold no digits, so it does not matter that only their marks are dropped. -/
theorem Legible.looksFor {c : Conventions} (hc : c.Legible) : c.LooksFor c.symbols where
  decimal := rfl
  group := rfl
  minus := c.normalizes_iff.mpr (by rw [normalize_of_inert hc.minus.inert, hc.symbols_minus])
  infinity := c.normalizes_iff.mpr (normalize_of_inert hc.infinity.inert).symm
  leading := ⟨_, c.normalizes_iff.mpr (normalize_of_inert hc.leading_inert).symm, rfl⟩
  trailing := ⟨_, c.normalizes_iff.mpr (normalize_of_inert hc.trailing_inert).symm, rfl⟩

end Conventions

/-! ## What a reading denotes -/

/-- The reading denotes this number: an infinity, or the number of the plain decimal literal with
its digits, and with a minus sign the opposite of that. -/
def Reading.Denotes (r : Reading) (x : Binary64) : Prop :=
  match r.body with
  | .infinity => x = .infinity r.negative
  | .digits integer fraction =>
    ∃ l, Literal.parse? (literalText integer fraction) = some l ∧
      x = if r.negative then (Binary64.ofLiteral l).neg else Binary64.ofLiteral l

theorem Grouped.isDigit {separator : Char} {text ds : List Char} (h : Grouped separator text ds) :
    ∀ c ∈ ds, c.isDigit = true := by
  induction h with
  | run hRun => exact hRun.isDigit
  | group hRun _ ih =>
    intro c hc
    rcases List.mem_append.mp hc with hc | hc
    · exact hRun.isDigit c hc
    · exact ih c hc

/-- Nothing but digits is read as digits. -/
theorem Symbols.IsBody.isDigit {s : Symbols} {text integer fraction : List Char}
    (h : s.IsBody (.digits integer fraction) text) :
    (∀ c ∈ integer, c.isDigit = true) ∧ ∀ c ∈ fraction, c.isDigit = true := by
  have hNil : ∀ c ∈ ([] : List Char), c.isDigit = true := fun c hc => absurd hc List.not_mem_nil
  cases h with
  | integer hText => exact ⟨hText.isDigit, hNil⟩
  | decimal hText hRun => exact ⟨hText.isDigit, hRun.isDigit⟩
  | fraction hRun => exact ⟨hNil, hRun.isDigit⟩

/-- What has been read denotes its value. -/
theorem Symbols.Spells.denotes {s : Symbols} {cs : List Char} {r : Reading} (h : s.Spells cs r) :
    r.Denotes r.value := by
  obtain ⟨-, hBody, -⟩ := h
  rename_i negative body front text back
  cases body with
  | infinity => exact rfl
  | digits integer fraction =>
    obtain ⟨hi, hf⟩ := hBody.isDigit
    refine ⟨_, parse?_literalText hi hf, ?_⟩
    cases negative with
    | false => rfl
    | true => exact Conventions.Legible.ofDecimal_true _ _

theorem Reading.value_ne_nan (r : Reading) : r.value ≠ .nan := by
  obtain ⟨negative, body⟩ := r
  cases body with
  | infinity => exact Binary64.noConfusion
  | digits integer fraction =>
    rw [value]
    dsimp only
    rw [Binary64.ofDecimal]
    cases Magnitude.ofDecimal? (readDigits (integer ++ fraction)) (-(fraction.length : Int)) <;>
      exact Binary64.noConfusion

/-! ## The standard locales -/

namespace Conventions

open Affixes (IsLeading isBodySign isMinusSign isLeading_standard ofStyle)
open Database

variable {c : Conventions}

theorem isBodySign_standard (hs : c.settings ∈ standardSettings) {ch : Char}
    (h : ch = c.symbols.decimal ∨ c.symbols.infinity.head? = some ch) :
    isBodySign ch = true ∧ isWhiteSpace ch = false ∧ isMinusSign ch = false := by
  have hAll : ∀ s ∈ standardSettings, ∀ d ∈ s.decimal :: (stripMarks s.infinity.toList).take 1,
      isBodySign d = true ∧ isWhiteSpace d = false ∧ isMinusSign d = false := by
    decide
  refine hAll _ hs ch ?_
  rcases h with rfl | h
  · exact List.mem_cons_self
  · obtain ⟨cs, hcs⟩ := List.head?_eq_some_iff.mp h
    have hcs' : stripMarks c.settings.infinity.toList = ch :: cs := hcs
    rw [hcs']
    exact List.mem_cons_of_mem _ List.mem_cons_self

/-- **In the standard locales the parts of a number are told apart by how they start.** -/
theorem distinct_of_settings (hs : c.settings ∈ standardSettings)
    (hAffixes : c.affixes = ofStyle standard c.settings c.config.style) : c.symbols.Distinct := by
  have hc := legible_of_settings hs hAffixes
  have hLeading : IsLeading c.affixes.leading := by
    rw [hAffixes]
    exact isLeading_standard hs c.config.style
  have hInfinity : ∀ s ∈ standardSettings,
      HeadNot (· == s.decimal) (stripMarks s.infinity.toList) := by
    decide
  have hHead : ∀ ch, c.symbols.isBodyHead ch = true →
      ch.isDigit = true ∨ ch = c.symbols.decimal ∨ c.symbols.infinity.head? = some ch := by
    intro ch h
    simpa only [Symbols.isBodyHead, Bool.or_eq_true, beq_iff_eq, or_assoc] using h
  exact {
    minus := symbols_minus_standard hs
    infinity_ne_nil := hc.infinity.ne_nil
    infinity := fun ch hch => Bool.or_eq_false_iff.mpr
      ⟨hc.hasInfinity.headNot_digit ch hch, hInfinity _ hs ch hch⟩
    decimal_digit := hc.decimal.inert.isDigit
    group_digit := hc.group.inert.isDigit
    decimal_ne_group := hc.decimal_ne_group
    body := fun ch h => by
      rcases hHead ch h with hDigit | hSign
      · exact ⟨not_isWhiteSpace_of_isDigit hDigit, hc.isMinusHead_of_isDigit hDigit⟩
      · obtain ⟨-, hSpace, hMinus⟩ := isBodySign_standard hs hSign
        have hNot := headNot_isMinusHead hs (headNot_cons_iff.mpr hMinus : HeadNot isMinusSign [ch])
        exact ⟨hSpace, headNot_cons_iff.mp hNot⟩
    leading := fun ch hch => by
      have hMem : ch ∈ stripMarks c.affixes.leading := mem_of_mem_trim (List.mem_of_mem_head? hch)
      have hBody : c.symbols.isBodyHead ch = false := Bool.eq_false_iff.mpr fun h => by
        rcases hHead ch h with hDigit | hSign
        · rw [(hc.leading_inert ch hMem).isDigit] at hDigit
          cases hDigit
        · have hNot := hLeading.noBody ch hch
          rw [(isBodySign_standard hs hSign).1] at hNot
          cases hNot
      exact Bool.or_eq_false_iff.mpr ⟨Bool.or_eq_false_iff.mpr
        ⟨headNot_trim _ ch hch, hc.leading_noMinus ch hch⟩, hBody⟩
    trailing := headNot_trim _
    trailing_digitless := fun ch hch => (hc.trailing_inert ch (mem_of_mem_trim hch)).isDigit }

theorem distinct_standard (tag : LanguageTag) (config : Config) (suggested : String) :
    (ofTag standard tag config suggested).symbols.Distinct :=
  distinct_of_settings (settingsOrDefault_standard_mem _) rfl

/-- **In the standard locales exactly the texts of the grammar are read**, for every tag, style,
currency and numbering system, once their marks are dropped and their native digits are ASCII
digits.  A text has one reading at most, however it is parted, and it is read as the number that
this reading denotes. -/
theorem accepts_standard {config : Config} {tag : String} {given reported : Reported}
    {c : Conventions} (hb : build standard tag config given = .ok (c, reported)) (cs : List Char) :
    c.LooksFor c.symbols ∧ ∃ t, (∀ t', c.numberingSystem.Normalizes cs t' ↔ t' = t) ∧
      (c.readBody cs ≠ .nan ↔ ∃ r, c.symbols.Spells t r) ∧
      ∀ r, c.symbols.Spells t r →
        r.Denotes (c.readBody cs) ∧ ∀ r', c.symbols.Spells t r' → r' = r := by
  obtain ⟨t, -, rfl, -⟩ := build_eq_ok_iff.mp hb
  have hLegible := legible_standard t config given.numberingSystem
  have hs := distinct_standard t config given.numberingSystem
  generalize ofTag standard t config given.numberingSystem = c at hLegible hs ⊢
  have hRead : ∀ r, c.symbols.Spells (c.normalize cs) r → c.readBody cs = r.value :=
    fun r hr => Legible.readBody_of_read? (hs.read?_eq_some_iff.mpr hr)
  refine ⟨hLegible.looksFor, c.normalize cs, fun t' => c.normalizes_iff,
    ⟨fun hne => ?_, ?_⟩, fun r hr => ⟨?_, fun r' hr' => ?_⟩⟩
  · cases h : c.symbols.read? (c.normalize cs) with
    | none =>
      rw [readBody, h] at hne
      exact absurd rfl hne
    | some r => exact ⟨r, .of_read? h⟩
  · rintro ⟨r, hr⟩
    rw [hRead r hr]
    exact r.value_ne_nan
  · rw [hRead r hr]
    exact hr.denotes
  · have h := hs.read?_eq_some_iff.mpr hr
    rw [hs.read?_eq_some_iff.mpr hr'] at h
    exact Option.some.inj h

/-- An Arabic text with a mark before its minus sign, a no-break space behind it and native digits,
and a French one whose separators are white space like the characters around its sign. -/
theorem accepts_standard_arabic_french :
    (∃ c reported, build standard "ar-EG" {} ⟨"ar-EG", "arab"⟩ = .ok (c, reported) ∧
      c.readBody "\u061c-\u00a0١٬٢٣٤٫٥".toList = .ofDecimal true 12345 (-1) ∧
      c.numberingSystem.Normalizes "\u061c-\u00a0١٬٢٣٤٫٥".toList "-\u00a01٬234٫5".toList ∧
      ∃! r, c.symbols.Spells "-\u00a01٬234٫5".toList r) ∧
    ∃ c reported, build standard "fr" {} ⟨"fr", "latn"⟩ = .ok (c, reported) ∧
      c.readBody "\u202f- 1\u202f234,5\u202f".toList = .ofDecimal true 12345 (-1) ∧
      c.numberingSystem.Normalizes "\u202f- 1\u202f234,5\u202f".toList
        "\u202f- 1\u202f234,5\u202f".toList ∧
      ∃! r, c.symbols.Spells "\u202f- 1\u202f234,5\u202f".toList r := by
  constructor
  · have hTag : LanguageTag.parse? "ar-EG" =
        some ⟨⟨['a', 'r'], none, some ['E', 'G'], []⟩, .empty⟩ := by
      decide +kernel
    have hb := @build_of_parse? standard _ _ hTag {} ⟨"ar-EG", "arab"⟩
    have hValue : (ofTag standard ⟨⟨['a', 'r'], none, some ['E', 'G'], []⟩, .empty⟩ {}
        "arab").readBody "\u061c-\u00a0١٬٢٣٤٫٥".toList = .ofDecimal true 12345 (-1) := by
      decide +kernel
    obtain ⟨-, t, hText, hIff, hUnique⟩ := accepts_standard hb "\u061c-\u00a0١٬٢٣٤٫٥".toList
    obtain rfl : "-\u00a01٬234٫5".toList = t :=
      (hText _).mp ((normalizes_iff _).mpr (by decide +kernel))
    obtain ⟨r, hr⟩ := hIff.mp (by rw [hValue]; decide +kernel)
    exact ⟨_, _, hb, hValue, (hText _).mpr rfl, r, hr, (hUnique r hr).2⟩
  · have hTag : LanguageTag.parse? "fr" = some ⟨⟨['f', 'r'], none, none, []⟩, .empty⟩ := by
      decide +kernel
    have hb := @build_of_parse? standard _ _ hTag {} ⟨"fr", "latn"⟩
    have hValue : (ofTag standard ⟨⟨['f', 'r'], none, none, []⟩, .empty⟩ {} "latn").readBody
        "\u202f- 1\u202f234,5\u202f".toList = .ofDecimal true 12345 (-1) := by
      decide +kernel
    obtain ⟨-, t, hText, hIff, hUnique⟩ :=
      accepts_standard hb "\u202f- 1\u202f234,5\u202f".toList
    obtain rfl : "\u202f- 1\u202f234,5\u202f".toList = t :=
      (hText _).mp ((normalizes_iff _).mpr (by decide +kernel))
    obtain ⟨r, hr⟩ := hIff.mp (by rw [hValue]; decide +kernel)
    exact ⟨_, _, hb, hValue, (hText _).mpr rfl, r, hr, (hUnique r hr).2⟩

end Conventions

end Numeral
