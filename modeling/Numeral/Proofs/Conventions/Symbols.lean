import Mathlib.Data.List.TFAE
import Numeral.Proofs.Conventions.Grammar
import Numeral.Proofs.NumberingSystem

/-!
# What is looked for and what is written

A text is read after its marks of text direction are dropped and its native digits made ASCII
digits, but from the affixes and the infinity sign that a reader looks for only the marks are
dropped.  So a reader finds them in what is written exactly if no native digit is part of them
(`symbols_normalized`).  Nothing else can come between: marks inside an affix or at its ends are
dropped on both sides, and white space is trimmed from what is looked for and passed over in the
text, as a digit is neither (`trim_map`).
-/

namespace Numeral

open Text

variable {cs : List Char} {ch : Char}

namespace Text

/-- What changes no white space into ink and no ink into white space may be done before trimming. -/
theorem trim_map {f : Char → Char} (hf : ∀ ch, isWhiteSpace (f ch) = isWhiteSpace ch)
    (cs : List Char) : trim (cs.map f) = (trim cs).map f := by
  have hClass : isWhiteSpace ∘ f = isWhiteSpace := funext hf
  rw [trim, trim, trimRight, trimRight, trimLeft, trimLeft, List.dropWhile_map, hClass,
    ← List.map_reverse, List.dropWhile_map, hClass, ← List.map_reverse]

/-- Ink is not trimmed. -/
theorem mem_trim (hMem : ch ∈ cs) (hInk : isWhiteSpace ch = false) : ch ∈ trim cs := by
  obtain ⟨l, r, hcs, hl, hr⟩ := exists_eq_append_trim cs
  rw [hcs, List.mem_append, List.mem_append] at hMem
  have hNot : ∀ w : List Char, (∀ c ∈ w, isWhiteSpace c = true) → ch ∉ w := by
    intro w hw hch
    rw [hw ch hch] at hInk
    cases hInk
  rcases hMem with h | h | h
  · exact absurd h (hNot l hl)
  · exact h
  · exact absurd h (hNot r hr)

end Text

namespace NumberingSystem

/-- A digit of the numbering system that is not an ASCII digit is part of the text. -/
def HasNativeDigit (s : NumberingSystem) (cs : List Char) : Prop :=
  ∃ ch ∈ cs, ch ∈ s.digits ∧ ch.isDigit = false

/-- A character changes if and only if it is a native digit. -/
theorem toAscii_ne_self_iff (s : NumberingSystem) :
    s.toAscii ch ≠ ch ↔ ch ∈ s.digits ∧ ch.isDigit = false := by
  by_cases hMem : ch ∈ s.digits
  · have hAll : ∀ t ∈ all, ∀ d ∈ t.digits, (t.toAscii d ≠ d ↔ d.isDigit = false) := by decide
    rw [hAll s s.mem_all ch hMem, and_iff_right hMem]
  · exact iff_of_false (fun h => h (toAscii_of_not_mem hMem)) fun h => hMem h.1

/-- Native digits are ink before and after. -/
theorem isWhiteSpace_toAscii (s : NumberingSystem) (ch : Char) :
    isWhiteSpace (s.toAscii ch) = isWhiteSpace ch := by
  by_cases hSelf : s.toAscii ch = ch
  · rw [hSelf]
  · have hAll : ∀ t ∈ all, ∀ d ∈ t.digits, isWhiteSpace (t.toAscii d) = isWhiteSpace d := by decide
    exact hAll s s.mem_all ch (s.toAscii_ne_self_iff.mp hSelf).1

theorem map_toAscii_eq_self_iff (s : NumberingSystem) :
    cs.map s.toAscii = cs ↔ ¬ s.HasNativeDigit cs := by
  have hSelf : cs.map s.toAscii = cs ↔ ∀ ch ∈ cs, s.toAscii ch = ch := by
    have h := List.map_inj_left (l := cs) (f := s.toAscii) (g := id)
    rwa [List.map_id] at h
  rw [hSelf, HasNativeDigit, not_exists]
  refine forall_congr' fun ch => ?_
  rw [not_and, ← s.toAscii_ne_self_iff, ne_eq, not_not]

/-- Neither trimming nor dropping marks takes native digits away. -/
theorem hasNativeDigit_stripMarks (s : NumberingSystem) :
    s.HasNativeDigit (stripMarks cs) ↔ s.HasNativeDigit cs := by
  constructor
  · rintro ⟨ch, hMem, hNative⟩
    exact ⟨ch, (List.mem_filter.mp hMem).1, hNative⟩
  · rintro ⟨ch, hMem, hNative⟩
    have hInk := (ink_of_mem_digits hNative.1).2
    exact ⟨ch, List.mem_filter.mpr ⟨hMem, by rw [hInk, Bool.not_false]⟩, hNative⟩

theorem hasNativeDigit_trim (s : NumberingSystem) :
    s.HasNativeDigit (trim cs) ↔ s.HasNativeDigit cs := by
  constructor
  · rintro ⟨ch, hMem, hNative⟩
    exact ⟨ch, mem_of_mem_trim hMem, hNative⟩
  · rintro ⟨ch, hMem, hNative⟩
    exact ⟨ch, mem_trim hMem (ink_of_mem_digits hNative.1).1, hNative⟩

end NumberingSystem

/-- The affix is found at the start of every text that starts with this one, and taken off with the
white space around it. -/
def IsFoundIn (affix text : List Char) : Prop :=
  ∀ rest, HeadNot isWhiteSpace rest → skipAffix affix (text ++ rest) = rest

/-- An affix is found in a text of its length only if it is that text. -/
theorem eq_trim_of_isFoundIn {affix text : List Char} (h : IsFoundIn affix text)
    (hLength : affix.length = (trim text).length) : affix = trim text := by
  have hEnd := h [] (headNot_nil _)
  obtain ⟨r, hr, -, -⟩ := exists_trimLeft_append text (headNot_nil isWhiteSpace)
  rw [skipAffix, hr, List.append_nil, skipText] at hEnd
  cases hAfter : afterText? affix (trim text ++ r) with
  | some rest =>
    exact (List.append_inj_left (afterText?_eq_some_iff.mp hAfter) hLength.symm).symm
  | none =>
    -- the whole text is left over, so there is no ink in it
    rw [hAfter, Option.getD_none] at hEnd
    have hNil : trim text = [] := by
      by_contra hne
      rw [trimLeft_of_headNot ((headNot_append_iff hne r).mpr (headNot_trim text))] at hEnd
      exact hne (List.append_eq_nil_iff.mp hEnd).1
    rw [hNil, List.length_nil, List.length_eq_zero_iff] at hLength
    rw [hLength, hNil]

/-- The infinity is read exactly behind its sign, if there is one. -/
theorem Symbols.splitBody?_eq_infinity_iff {s : Symbols} {rest : List Char} :
    s.splitBody? cs = some (.infinity, rest) ↔ s.infinity ≠ [] ∧ cs = s.infinity ++ rest := by
  constructor
  · intro h
    rw [splitBody?] at h
    split at h
    · rename_i rest' hAfter
      obtain ⟨-, rfl⟩ := Prod.mk.inj (Option.some.inj h)
      split at hAfter
      · cases hAfter
      · rename_i hne
        exact ⟨fun hNil => hne (List.isEmpty_iff.mpr hNil), afterText?_eq_some_iff.mp hAfter⟩
    · -- digits are another body
      dsimp only at h
      split at h
      · cases h
      · cases h
  · rintro ⟨hne, rfl⟩
    rw [splitBody?, if_neg (by rwa [List.isEmpty_iff]), afterText?_append]

namespace Conventions

variable (c : Conventions)

/-- What is looked for instead of an affix is its normalized text, and is found in it, if and only
if the affix has no native digit. -/
theorem affix_normalized (a : List Char) :
    List.TFAE [trim (stripMarks a) = trim (c.normalize a),
      IsFoundIn (trim (stripMarks a)) (c.normalize a), ¬ c.numberingSystem.HasNativeDigit a] := by
  have hTrim : trim (c.normalize a) = (trim (stripMarks a)).map c.numberingSystem.toAscii :=
    trim_map c.numberingSystem.isWhiteSpace_toAscii (stripMarks a)
  tfae_have 1 → 2 := by
    intro h rest hRest
    rw [h]
    exact trimLeft_skipText_trim _ hRest
  tfae_have 2 → 1 := fun h => eq_trim_of_isFoundIn h (by rw [hTrim, List.length_map])
  tfae_have 1 ↔ 3 := by
    rw [hTrim, eq_comm, c.numberingSystem.map_toAscii_eq_self_iff,
      c.numberingSystem.hasNativeDigit_trim, c.numberingSystem.hasNativeDigit_stripMarks]
  tfae_finish

/-- What is looked for instead of the infinity sign is its normalized text, and is read as the
infinity, if and only if the sign has no native digit. -/
theorem infinity_normalized :
    List.TFAE [c.symbols.infinity = c.normalize c.settings.infinity.toList,
      c.symbols.infinity ≠ [] → ∀ rest,
        c.symbols.splitBody? (c.normalize c.settings.infinity.toList ++ rest) =
          some (.infinity, rest),
      ¬ c.numberingSystem.HasNativeDigit c.settings.infinity.toList] := by
  have hNormalize : c.normalize c.settings.infinity.toList =
      c.symbols.infinity.map c.numberingSystem.toAscii := rfl
  tfae_have 1 → 2 := by
    intro h hne rest
    rw [← h]
    exact Symbols.splitBody?_eq_infinity_iff.mpr ⟨hne, rfl⟩
  tfae_have 2 → 1 := by
    intro h
    by_cases hNil : c.symbols.infinity = []
    · rw [hNormalize, hNil, List.map_nil]
    · have hText := (Symbols.splitBody?_eq_infinity_iff.mp (h hNil [])).2
      rw [List.append_nil, List.append_nil] at hText
      exact hText.symm
  tfae_have 1 ↔ 3 := by
    rw [hNormalize, eq_comm, c.numberingSystem.map_toAscii_eq_self_iff]
    exact not_congr c.numberingSystem.hasNativeDigit_stripMarks
  tfae_finish

/-- **The affixes and the infinity sign that are looked for are those that are written**, in
normalized form, if and only if none of their characters is a native digit of the numbering system;
and exactly then they are found in every text that is written. -/
theorem symbols_normalized :
    List.TFAE [c.symbols.leading = trim (c.normalize c.affixes.leading),
        IsFoundIn c.symbols.leading (c.normalize c.affixes.leading),
        ¬ c.numberingSystem.HasNativeDigit c.affixes.leading] ∧
      List.TFAE [c.symbols.trailing = trim (c.normalize c.affixes.trailing),
        IsFoundIn c.symbols.trailing (c.normalize c.affixes.trailing),
        ¬ c.numberingSystem.HasNativeDigit c.affixes.trailing] ∧
      List.TFAE [c.symbols.infinity = c.normalize c.settings.infinity.toList,
        c.symbols.infinity ≠ [] → ∀ rest,
          c.symbols.splitBody? (c.normalize c.settings.infinity.toList ++ rest) =
            some (.infinity, rest),
        ¬ c.numberingSystem.HasNativeDigit c.settings.infinity.toList] :=
  ⟨c.affix_normalized c.affixes.leading, c.affix_normalized c.affixes.trailing,
    c.infinity_normalized⟩

/-- The percent style of a locale with Arabic digits, and with one of them in two of its signs. -/
def arabicPercent : Conventions where
  settings := { infinity := "\u0661∞", percent := "٪\u0661", numberingSystems := ["arab"] }
  numberingSystem := .arab
  config := { style := .percent }
  affixes := .ofPattern "#%".toList [] "٪\u0661".toList

/-- A database can lead to these conventions.  Under them neither the percent sign nor the infinity
sign is found in what is written. -/
theorem not_symbols_normalized :
    (∃ db t, Database.empty.withLocale "ar" arabicPercent.settings = .ok db ∧
      LanguageTag.parse? "ar" = some t ∧ ofTag db t { style := .percent } "" = arabicPercent) ∧
    arabicPercent.symbols.trailing ≠ trim (arabicPercent.normalize arabicPercent.affixes.trailing) ∧
    arabicPercent.symbols.infinity ≠
      arabicPercent.normalize arabicPercent.settings.infinity.toList ∧
    arabicPercent.read (arabicPercent.write (.infinity false)) = .nan ∧
    arabicPercent.read (arabicPercent.write (.ofDecimal false 5 (-1))) = .nan := by
  refine ⟨⟨{ Database.empty with
      locales := Database.empty.locales.insert "ar" arabicPercent.settings },
    ⟨⟨['a', 'r'], none, none, []⟩, .empty⟩, ?_, by decide +kernel, ?_⟩, by decide +kernel⟩
  · have hTag : Database.canonicalTag "ar" = .ok "ar" := by decide +kernel
    rw [Database.withLocale, hTag]
    rfl
  · have hName : (⟨⟨['a', 'r'], none, none, []⟩, .empty⟩ : LanguageTag).baseName = "ar" := by
      decide +kernel
    have hKeyword :
        (⟨⟨['a', 'r'], none, none, []⟩, .empty⟩ : LanguageTag).keyword? "nu" = none := by
      decide +kernel
    have hSystem : ((usable? arabicPercent.settings "").or (usable? arabicPercent.settings
        arabicPercent.settings.defaultNumberingSystem)).getD .latn = .arab := by
      decide +kernel
    rw [ofTag, numberingSystemFor, named?, hName, hKeyword, Database.settingsOrDefault,
      Database.settings?, Std.TreeMap.getElem?_insert_self, Option.getD_some]
    simp only [Option.bind_none, Option.none_or, hSystem]
    rfl

end Conventions

end Numeral
