import Numeral.Proofs.Conventions.NativeDigits
import Numeral.Proofs.Conventions.Standard
import Numeral.Proofs.Decimal.Parts

/-!
# The shape of written numbers

A finite number is written as its minus sign, if it is negative, and between the affixes of its
style an integer part and, behind a decimal sign, a fraction.  The integer part has the digits of
the whole part of the rounded magnitude, filled up with zeros, in groups of three if that is wanted;
the fraction has digits alone.  The decimal sign is none of these, so a text has one such shape only
(`joinParts_inj`).  In the standard locales every number is written in it (`shape_standard`).
-/

namespace Numeral

open Decimal

open Database (standard)

/-- An integer part and a fraction as one text, with the decimal sign before the fraction if there
is one. -/
def joinParts (decimal : Char) (integer fraction : List Char) : List Char :=
  integer ++ if fraction.isEmpty then [] else decimal :: fraction

/-- A text that holds the decimal sign once at most has two parts in one way. -/
theorem joinParts_inj {decimal : Char} {integer fraction integer' fraction' : List Char}
    (hInteger : decimal ∉ integer) (hFraction : decimal ∉ fraction)
    (hNone : fraction' = [] → decimal ∉ integer')
    (h : joinParts decimal integer fraction = joinParts decimal integer' fraction') :
    integer = integer' ∧ fraction = fraction' := by
  cases fraction with
  | nil =>
    cases fraction' with
    | nil => exact ⟨List.append_cancel_right h, rfl⟩
    | cons e fraction' =>
      have hText : integer ++ [] = integer' ++ decimal :: e :: fraction' := h
      rw [List.append_nil] at hText
      exact absurd (hText ▸ List.mem_append_right integer' List.mem_cons_self) hInteger
  | cons e fraction =>
    cases fraction' with
    | nil =>
      have hText : integer ++ decimal :: e :: fraction = integer' ++ [] := h
      rw [List.append_nil] at hText
      exact absurd (hText ▸ List.mem_append_right integer List.mem_cons_self) (hNone rfl)
    | cons e' fraction' =>
      obtain ⟨hParts, -, hParts'⟩ := (List.append_cons_inj_of_notMem hInteger hFraction).mp h
      exact ⟨hParts, hParts'⟩

namespace Conventions

variable {c : Conventions} {x : Magnitude}

/-! ### The rounded magnitude -/

/-- The decimal that is shown for a magnitude: its shortest one, rounded as the bounds on its digits
demand. -/
def rounded (c : Conventions) (x : Magnitude) : Decimal :=
  match c.config.significantDigits with
  | some range => (x.shortest .up).roundToSignificant range.maximum
  | none => (x.shortest .up).roundToFraction c.config.fractionDigits.maximum

theorem isNormal_rounded (c : Conventions) (x : Magnitude) : (c.rounded x).IsNormal := by
  have hNormal := isNormal_shortest .up x
  unfold rounded
  split
  · exact hNormal.roundToSignificant _
  · exact hNormal.roundToFraction _

/-- What is shown are the two parts of the rounded magnitude, with zeros behind the fraction. -/
theorem exists_shownDigits_eq (c : Conventions) (x : Magnitude) :
    ∃ n, c.shownDigits x =
      ((c.rounded x).integerDigits, padRight n (c.rounded x).fractionDigits) := by
  unfold shownDigits rounded
  cases c.config.significantDigits with
  | some range => exact ⟨_, rfl⟩
  | none => exact ⟨_, rfl⟩

theorem shownDigits_integer (c : Conventions) (x : Magnitude) :
    (c.shownDigits x).1 = digitsOf ⌊(c.rounded x).toRat⌋₊ := by
  obtain ⟨n, hShown⟩ := c.exists_shownDigits_eq x
  rw [hShown, (c.isNormal_rounded x).integerDigits_eq]

theorem fractionOf_shownDigits (c : Conventions) (x : Magnitude) :
    fractionOf (c.shownDigits x).2 = Int.fract (c.rounded x).toRat := by
  obtain ⟨n, hShown⟩ := c.exists_shownDigits_eq x
  rw [hShown, fractionOf_padRight, (c.isNormal_rounded x).belowTen.fract_toRat]

/-! ### The two parts -/

/-- The integer part and the fraction that are written for a magnitude. -/
structure HasParts (c : Conventions) (x : Magnitude) (integer fraction : List Char) : Prop where
  integer_ne_nil : integer ≠ []
  /-- Digits and separators make up the integer part. -/
  integer_mem : ∀ ch ∈ integer, ch = c.settings.group ∨ ch ∈ c.numberingSystem.digits
  /-- Digits alone make up the fraction. -/
  fraction_mem : ∀ ch ∈ fraction, ch ∈ c.numberingSystem.digits
  group_not_mem : c.settings.group ∉ fraction
  decimal_not_mem : c.settings.decimal ∉ integer ∧ c.settings.decimal ∉ fraction
  /-- The integer digits are those of the whole part of the rounded magnitude, behind zeros. -/
  integer_digits : (ungroup c.settings.group integer).map c.numberingSystem.toAscii =
    digitText (padLeft c.config.minimumIntegerDigits (digitsOf ⌊(c.rounded x).toRat⌋₊))
  length_integer : (ungroup c.settings.group integer).length =
    max c.config.minimumIntegerDigits (digitCount ⌊(c.rounded x).toRat⌋₊)
  fraction_digits : fraction.map c.numberingSystem.toAscii = digitText (c.shownDigits x).2
  /-- They denote what the rounded magnitude has beyond its whole part. -/
  fraction_value : fractionOf (c.shownDigits x).2 = Int.fract (c.rounded x).toRat
  grouped : c.config.useGrouping = true → IsGrouped c.settings.group integer
  not_grouped : c.config.useGrouping = false → c.settings.group ∉ integer

/-- The integer digits that are written, before they are grouped. -/
def nativeInteger (c : Conventions) (x : Magnitude) : List Char :=
  c.numberingSystem.digitText (padLeft c.config.minimumIntegerDigits (c.shownDigits x).1)

/-- The integer part that is written. -/
def integerPart (c : Conventions) (x : Magnitude) : List Char :=
  if c.config.useGrouping then groupDigits c.settings.group (c.nativeInteger x)
  else c.nativeInteger x

/-- The fraction that is written. -/
def fractionPart (c : Conventions) (x : Magnitude) : List Char :=
  c.numberingSystem.digitText (c.shownDigits x).2

theorem mem_nativeInteger {ch : Char} (h : ch ∈ c.nativeInteger x) :
    ch ∈ c.numberingSystem.digits :=
  NumberingSystem.mem_digits_of_mem_digitText (lt_ten_padLeft (c.shownDigits_lt_ten x).1) ch h

theorem mem_fractionPart {ch : Char} (h : ch ∈ c.fractionPart x) : ch ∈ c.numberingSystem.digits :=
  NumberingSystem.mem_digits_of_mem_digitText (c.shownDigits_lt_ten x).2 ch h

theorem mem_integerPart {ch : Char} (h : ch ∈ c.integerPart x) :
    ch = c.settings.group ∨ ch ∈ c.numberingSystem.digits := by
  rw [integerPart] at h
  split at h
  · exact (mem_groupDigits h).imp_right mem_nativeInteger
  · exact Or.inr (mem_nativeInteger h)

theorem integerPart_ne_nil (hm : 1 ≤ c.config.minimumIntegerDigits) : c.integerPart x ≠ [] := by
  have hNative : c.nativeInteger x ≠ [] :=
    fun h => padLeft_ne_nil hm _ (List.map_eq_nil_iff.mp h)
  rw [integerPart]
  split
  · intro h
    have hHead := head?_groupDigits c.settings.group (c.nativeInteger x)
    rw [h] at hHead
    exact hNative (List.head?_eq_none_iff.mp hHead.symm)
  · exact hNative

namespace Legible

theorem group_not_mem_digits (hc : c.Legible) : c.settings.group ∉ c.numberingSystem.digits :=
  hc.group.inert _ c.numberingSystem.mem_all

theorem decimal_not_mem_digits (hc : c.Legible) : c.settings.decimal ∉ c.numberingSystem.digits :=
  hc.decimal.inert _ c.numberingSystem.mem_all

theorem group_not_mem_nativeInteger (hc : c.Legible) : c.settings.group ∉ c.nativeInteger x :=
  fun h => hc.group_not_mem_digits (mem_nativeInteger h)

theorem ungroup_integerPart (hc : c.Legible) :
    ungroup c.settings.group (c.integerPart x) = c.nativeInteger x := by
  rw [integerPart]
  split
  · exact ungroup_groupDigits hc.group_not_mem_nativeInteger
  · exact ungroup_of_not_mem hc.group_not_mem_nativeInteger

/-- The digits of the numbering system leave the separators as they are. -/
theorem magnitudeText_eq_joinParts (hc : c.Legible) (x : Magnitude) :
    c.magnitudeText x = joinParts c.settings.decimal (c.integerPart x) (c.fractionPart x) := by
  have hGroup := hc.group.inert.fromAscii c.numberingSystem
  have hDecimal := hc.decimal.inert.fromAscii c.numberingSystem
  rw [magnitudeText_eq_nativeText, nativeText, hGroup, hDecimal]
  rfl

/-- **The parts of a written magnitude.** -/
theorem hasParts (hc : c.Legible) (hm : 1 ≤ c.config.minimumIntegerDigits) (x : Magnitude) :
    c.HasParts x (c.integerPart x) (c.fractionPart x) where
  integer_ne_nil := integerPart_ne_nil hm
  integer_mem := fun _ => mem_integerPart
  fraction_mem := fun _ => mem_fractionPart
  group_not_mem := fun h => hc.group_not_mem_digits (mem_fractionPart h)
  decimal_not_mem := by
    refine ⟨fun h => ?_, fun h => hc.decimal_not_mem_digits (mem_fractionPart h)⟩
    rcases mem_integerPart h with hGroup | hDigit
    · exact hc.decimal_ne_group hGroup
    · exact hc.decimal_not_mem_digits hDigit
  integer_digits := by
    rw [hc.ungroup_integerPart, nativeInteger, NumberingSystem.map_toAscii_digitText _
      (lt_ten_padLeft (c.shownDigits_lt_ten x).1), shownDigits_integer]
  length_integer := by
    rw [hc.ungroup_integerPart, nativeInteger, NumberingSystem.digitText, List.length_map,
      length_padLeft, shownDigits_integer, length_digitsOf]
  fraction_digits := NumberingSystem.map_toAscii_digitText _ (c.shownDigits_lt_ten x).2
  fraction_value := c.fractionOf_shownDigits x
  grouped := by
    intro hGrouping
    rw [integerPart, if_pos hGrouping]
    exact isGrouped_groupDigits hc.group_not_mem_nativeInteger
  not_grouped := by
    intro hGrouping
    rw [integerPart, if_neg (Bool.eq_false_iff.mp hGrouping)]
    exact hc.group_not_mem_nativeInteger

end Legible

/-- Between its sign and the affixes, a finite number is written by its magnitude. -/
theorem write_of_finite {x : Binary64} {negative : Bool} {m : Magnitude}
    (hx : c.scaled x.abs = .finite negative m) :
    c.write x = (if x.isNegative then c.settings.minus.toList else []) ++ c.affixes.leading ++
      c.magnitudeText m ++ c.affixes.trailing := by
  have hNumber : x.isNaN = false :=
    isNaN_eq_false_of_scaled fun hNaN => by rw [hx] at hNaN; cases hNaN
  rw [write, if_neg (Bool.eq_false_iff.mp hNumber), hx, bodyText]

/-- **The shape of written numbers.**  In the standard locales the text of every number of a finite
magnitude has its sign, the affixes, and between them an integer part and a fraction, which are
found there in one way only. -/
theorem shape_standard {o : Options} {config : Config} (ho : o.validate = .ok config)
    {tag : String} {given reported : Reported} {c : Conventions}
    (hb : build standard tag config given = .ok (c, reported)) {x : Binary64} {negative : Bool}
    {m : Magnitude} (hx : c.scaled x.abs = .finite negative m) :
    ∃ integer fraction,
      c.write x = (if x.isNegative then c.settings.minus.toList else []) ++ c.affixes.leading ++
        joinParts c.settings.decimal integer fraction ++ c.affixes.trailing ∧
      c.HasParts m integer fraction ∧
      ∀ integer' fraction', (fraction' = [] → c.settings.decimal ∉ integer') →
        joinParts c.settings.decimal integer fraction =
          joinParts c.settings.decimal integer' fraction' →
        integer = integer' ∧ fraction = fraction' := by
  obtain ⟨t, -, rfl, -⟩ := build_eq_ok_iff.mp hb
  have hLegible := legible_standard t config given.numberingSystem
  have hParts := hLegible.hasParts (bounded_of_validate ho).integer.1 m
  obtain ⟨hInteger, hFraction⟩ := hParts.decimal_not_mem
  refine ⟨_, _, ?_, hParts, fun _ _ hNone => joinParts_inj hInteger hFraction hNone⟩
  rw [write_of_finite hx, hLegible.magnitudeText_eq_joinParts]

/-- Zeros fill up two groups of Bengali digits. -/
theorem shape_standard_bengali :
    Options.validate (.ofList [("minimumIntegerDigits", Value.ofNat 7)]) =
        .ok { minimumIntegerDigits := 7 } ∧
      ∃ c reported m, build standard "bn-BD" { minimumIntegerDigits := 7 } ⟨"bn-BD", "beng"⟩ =
          .ok (c, reported) ∧
        Magnitude.ofDecimal? 123455 (-1) = some m ∧
        c.scaled (Binary64.finite true m).abs = .finite false m ∧
        c.write (.finite true m) = "-০,০১২,৩৪৫.৫".toList ∧
        c.HasParts m "০,০১২,৩৪৫".toList ['৫'] := by
  have ho : Options.validate (.ofList [("minimumIntegerDigits", Value.ofNat 7)]) =
      .ok { minimumIntegerDigits := 7 } := rfl
  have hTag : LanguageTag.parse? "bn-BD" =
      some ⟨⟨['b', 'n'], none, some ['B', 'D'], []⟩, .empty⟩ := by
    decide +kernel
  have hb := @build_of_parse? standard _ _ hTag { minimumIntegerDigits := 7 } ⟨"bn-BD", "beng"⟩
  have hText : (Magnitude.ofDecimal? 123455 (-1)).map (fun m =>
      ((Binary64.finite true m).isNegative,
        (ofTag standard ⟨⟨['b', 'n'], none, some ['B', 'D'], []⟩, .empty⟩
          { minimumIntegerDigits := 7 } "beng").write (.finite true m))) =
      some (true, "-০,০১২,৩৪৫.৫".toList) := by
    decide +kernel
  obtain ⟨m, hm, hBoth⟩ := Option.map_eq_some_iff.mp hText
  obtain ⟨hNegative, hWrite⟩ := Prod.mk.inj hBoth
  obtain ⟨integer, fraction, hShape, hParts, hUnique⟩ := @shape_standard _ _ ho _ _ _ _ hb
    (.finite true m) false m rfl
  rw [hWrite, hNegative, if_pos rfl] at hShape
  have hBody : "-০,০১২,৩৪৫.৫".toList = ['-'] ++ [] ++ joinParts '.' integer fraction ++ [] := hShape
  rw [List.append_nil, List.append_nil] at hBody
  obtain ⟨rfl, rfl⟩ := hUnique "০,০১২,৩৪৫".toList ['৫'] (fun h => by cases h)
    (List.cons.inj hBody).2.symm
  exact ⟨ho, _, _, m, hb, hm, rfl, hWrite, hParts⟩

end Conventions

end Numeral
