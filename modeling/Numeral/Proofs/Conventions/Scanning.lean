import Numeral.Conventions.Reading
import Numeral.Conventions.Writing
import Numeral.Proofs.Text.Span

/-!
# Scanning the parts of a number

What each part of the reader does on a text that starts with the part it looks for: a sign
(`splitMinus_append`), an affix between white space (`trimLeft_skipText_trim`), runs of digits
between separators (`splitInteger_of_grouped`), a fraction (`splitFraction_cons`).  `read?_append`
puts the parts together: a sign, an affix, a body that is scanned, and an affix are read as that
sign and body.
-/

namespace Numeral

open Text

/-! ## Fixed texts -/

theorem afterText?_eq_some_iff {t cs rest : List Char} :
    afterText? t cs = some rest ↔ cs = t ++ rest := by
  induction t generalizing cs with
  | nil => simp [afterText?]
  | cons c t ih =>
    cases cs with
    | nil => simp [afterText?]
    | cons d cs =>
      by_cases hc : c = d
      · subst hc
        simp [afterText?, ih]
      · simp only [afterText?, if_neg hc, reduceCtorEq, List.cons_append, List.cons.injEq,
          false_iff]
        exact fun h => hc h.1.symm

@[simp]
theorem afterText?_append (t rest : List Char) : afterText? t (t ++ rest) = some rest :=
  afterText?_eq_some_iff.mpr rfl

theorem afterText?_eq_none_of_head? {t : List Char} {c : Char} (ht : t ≠ [])
    (hc : t.head? ≠ some c) (cs : List Char) : afterText? t (c :: cs) = none := by
  cases t with
  | nil => exact absurd rfl ht
  | cons d t =>
    have hd : d ≠ c := fun he => hc (congrArg some he)
    rw [afterText?, if_neg hd]

@[simp]
theorem skipText_append (t rest : List Char) : skipText t (t ++ rest) = rest := by
  rw [skipText, afterText?_append, Option.getD_some]

/-- An affix is skipped together with the white space at its ends. -/
theorem trimLeft_skipText_trim (a : List Char) {rest : List Char}
    (hRest : HeadNot isWhiteSpace rest) :
    trimLeft (skipText (trim a) (trimLeft (a ++ rest))) = rest := by
  obtain ⟨r, hr, hAll, -⟩ := exists_trimLeft_append a hRest
  rw [hr, skipText_append, trimLeft_append_of_all hAll, trimLeft_of_headNot hRest]

/-! ## Digits and separators -/

theorem splitGroups_of_headNot {separator : Char} {rest : List Char}
    (h : HeadNot (· == separator) rest) : splitGroups separator rest = ([], rest) := by
  cases rest with
  | nil => rw [splitGroups]
  | cons c rest =>
    have hc : (c == separator) = false := headNot_cons_iff (p := (· == separator)).mp h
    rw [splitGroups, if_neg fun h => beq_eq_false_iff_ne.mp hc h.1]

/-- One or more ASCII digits. -/
structure IsRun (ds : List Char) : Prop where
  ne_nil : ds ≠ []
  isDigit : ∀ c ∈ ds, c.isDigit = true

/-- The text is runs of digits with a separator between any two, and these are its digits. -/
inductive Grouped (separator : Char) : List Char → List Char → Prop
  | run {ds : List Char} : IsRun ds → Grouped separator ds ds
  | group {ds text ds' : List Char} :
      IsRun ds → Grouped separator text ds' →
        Grouped separator (ds ++ separator :: text) (ds ++ ds')

theorem IsRun.exists_cons {ds : List Char} (h : IsRun ds) :
    ∃ d ds', ds = d :: ds' ∧ d.isDigit = true := by
  obtain ⟨d, ds', rfl⟩ := List.exists_cons_of_ne_nil h.ne_nil
  exact ⟨d, ds', rfl, h.isDigit d List.mem_cons_self⟩

theorem IsRun.cons {d : Char} {ds : List Char} (hd : d.isDigit = true)
    (h : ∀ c ∈ ds, c.isDigit = true) : IsRun (d :: ds) :=
  ⟨List.cons_ne_nil d ds, List.forall_mem_cons.mpr ⟨hd, h⟩⟩

namespace Grouped

variable {separator d : Char} {text ds rest : List Char}

theorem exists_cons (h : Grouped separator text ds) :
    ∃ d cs, text = d :: cs ∧ d.isDigit = true := by
  cases h with
  | run hRun => exact hRun.exists_cons
  | group hRun _ =>
    obtain ⟨d, ds, rfl, hd⟩ := hRun.exists_cons
    exact ⟨d, _, rfl, hd⟩

theorem digits_ne_nil (h : Grouped separator text ds) : ds ≠ [] := by
  cases h with
  | run hRun => exact hRun.ne_nil
  | group hRun _ => exact List.append_ne_nil_of_left_ne_nil hRun.ne_nil _

/-- A digit before the text belongs to its first run. -/
theorem cons (hd : d.isDigit = true) (h : Grouped separator text ds) :
    Grouped separator (d :: text) (d :: ds) := by
  cases h with
  | run hRun => exact .run (.cons hd hRun.isDigit)
  | group hRun hText => exact .group (.cons hd hRun.isDigit) hText

theorem of_groupDigits (hne : ds ≠ []) (h : ∀ c ∈ ds, c.isDigit = true) :
    Grouped separator (groupDigits separator ds) ds := by
  induction ds with
  | nil => exact absurd rfl hne
  | cons d ds ih =>
    obtain ⟨hd, hds⟩ := List.forall_mem_cons.mp h
    have hRun : IsRun [d] := .cons hd fun _ hc => absurd hc List.not_mem_nil
    rw [groupDigits]
    split
    · rename_i hGrouped
      exact .group hRun (ih hGrouped.2 hds)
    · by_cases hNil : ds = []
      · subst hNil
        exact .run hRun
      · exact (ih hNil hds).cons hd

/-- Runs and groups are taken to their end, where neither a run nor a group goes on. -/
theorem splitGroups_append (hSeparator : separator.isDigit = false)
    (h : Grouped separator text ds) (hRest : HeadNot Char.isDigit rest)
    (hEnd : splitGroups separator rest = ([], rest)) :
    (text ++ rest).takeWhile Char.isDigit ++
        (splitGroups separator ((text ++ rest).dropWhile Char.isDigit)).1 = ds ∧
      (splitGroups separator ((text ++ rest).dropWhile Char.isDigit)).2 = rest := by
  induction h with
  | run hRun =>
    rw [takeWhile_append_of_headNot hRun.isDigit hRest,
      dropWhile_append_of_headNot hRun.isDigit hRest, hEnd]
    exact ⟨List.append_nil _, rfl⟩
  | @group ds text ds' hRun hText ih =>
    -- the separator is taken together with the digit behind it
    have hHead : HeadNot Char.isDigit (separator :: (text ++ rest)) :=
      headNot_cons_iff.mpr hSeparator
    have hGroup : ((text ++ rest).takeWhile Char.isDigit).isEmpty = false := by
      obtain ⟨d, cs, rfl, hd⟩ := hText.exists_cons
      rw [List.cons_append, List.takeWhile_cons_of_pos hd, List.isEmpty_cons]
    rw [List.append_assoc, List.cons_append, takeWhile_append_of_headNot hRun.isDigit hHead,
      dropWhile_append_of_headNot hRun.isDigit hHead, splitGroups, if_pos ⟨rfl, hGroup⟩]
    exact ⟨congrArg (ds ++ ·) ih.1, ih.2⟩

end Grouped

namespace Symbols

variable (s : Symbols) {ds rest : List Char}

theorem splitInteger_of_grouped {text : List Char} (hGroup : s.group.isDigit = false)
    (h : Grouped s.group text ds) (hRest : HeadNot Char.isDigit rest)
    (hEnd : splitGroups s.group rest = ([], rest)) :
    s.splitInteger (text ++ rest) = (ds, rest) := by
  obtain ⟨hDigits, hRest'⟩ := h.splitGroups_append hGroup hRest hEnd
  obtain ⟨d, cs, rfl, hd⟩ := h.exists_cons
  have hHead : ((d :: cs ++ rest).takeWhile Char.isDigit).isEmpty = false := by
    rw [List.cons_append, List.takeWhile_cons_of_pos hd, List.isEmpty_cons]
  simp only [splitInteger, hHead, Bool.false_eq_true, if_false]
  exact Prod.ext hDigits hRest'

theorem splitInteger_of_headNot (hRest : HeadNot Char.isDigit rest) :
    s.splitInteger rest = ([], rest) := by
  simp only [splitInteger, takeWhile_of_headNot hRest, List.isEmpty_nil, if_true]

theorem splitFraction_of_headNot (hRest : HeadNot (· == s.decimal) rest) :
    s.splitFraction rest = ([], rest) := by
  cases rest with
  | nil => rfl
  | cons c rest =>
    have hc : (c == s.decimal) = false := headNot_cons_iff (p := (· == s.decimal)).mp hRest
    rw [splitFraction, if_neg (beq_eq_false_iff_ne.mp hc)]

theorem splitFraction_cons (hne : ds ≠ []) (hDigits : ∀ c ∈ ds, c.isDigit = true)
    (hRest : HeadNot Char.isDigit rest) :
    s.splitFraction (s.decimal :: (ds ++ rest)) = (ds, rest) := by
  have hEmpty : ds.isEmpty = false := List.isEmpty_eq_false_iff.mpr hne
  simp only [splitFraction, if_true, takeWhile_append_of_headNot hDigits hRest,
    dropWhile_append_of_headNot hDigits hRest, hEmpty, Bool.false_eq_true, if_false]

/-! ## Signs -/

/-- Whether a minus sign starts with this character. -/
def isMinusHead (c : Char) : Bool := s.minus.head? == some c || c == '-' || c == '\u2212'

@[simp]
theorem splitMinus_append (rest : List Char) : s.splitMinus (s.minus ++ rest) = (true, rest) := by
  simp only [splitMinus, afterText?_append, Option.some_or]

theorem splitMinus_of_headNot (hMinus : s.minus ≠ []) (h : HeadNot s.isMinusHead rest) :
    s.splitMinus rest = (false, rest) := by
  cases rest with
  | nil =>
    obtain ⟨m, ms, hm⟩ := List.exists_cons_of_ne_nil hMinus
    simp only [splitMinus, hm, afterText?, Option.or_none]
  | cons c rest =>
    have hc := headNot_cons_iff.mp h
    simp only [isMinusHead, Bool.or_eq_false_iff, beq_eq_false_iff_ne] at hc
    have hHyphen : (['-'] : List Char).head? ≠ some c := fun he => hc.1.2 (Option.some.inj he).symm
    have hSign : (['\u2212'] : List Char).head? ≠ some c := fun he => hc.2 (Option.some.inj he).symm
    simp only [splitMinus, afterText?_eq_none_of_head? hMinus hc.1.1,
      afterText?_eq_none_of_head? (List.cons_ne_nil _ _) hHyphen,
      afterText?_eq_none_of_head? (List.cons_ne_nil _ _) hSign, Option.or_none]

/-! ## The whole text -/

/-- The infinity sign is there, and does not start like a digit. -/
structure HasInfinity : Prop where
  infinity_ne_nil : s.infinity ≠ []
  headNot_digit : HeadNot Char.isDigit s.infinity

variable {s}

theorem HasInfinity.splitBody?_append (h : s.HasInfinity) (rest : List Char) :
    s.splitBody? (s.infinity ++ rest) = some (.infinity, rest) := by
  have hEmpty : s.infinity.isEmpty = false := List.isEmpty_eq_false_iff.mpr h.infinity_ne_nil
  simp only [splitBody?, hEmpty, Bool.false_eq_true, if_false, afterText?_append]

/-- Where there are integer digits, they and the fraction behind them are the body. -/
theorem HasInfinity.splitBody?_of_splitInteger (h : s.HasInfinity)
    {cs integer fraction rest' : List Char} (hInteger : s.splitInteger cs = (integer, rest))
    (hne : integer ≠ []) (hFraction : s.splitFraction rest = (fraction, rest')) :
    s.splitBody? cs = some (.digits integer fraction, rest') := by
  have hDigit : ¬ HeadNot Char.isDigit cs := by
    intro hHead
    rw [splitInteger_of_headNot s hHead] at hInteger
    exact hne (congrArg Prod.fst hInteger).symm
  have hInfinity : afterText? s.infinity cs = none := by
    cases ha : afterText? s.infinity cs with
    | none => rfl
    | some rest =>
      rw [afterText?_eq_some_iff.mp ha, headNot_append_iff h.infinity_ne_nil] at hDigit
      exact absurd h.headNot_digit hDigit
  have hEmpty : integer.isEmpty = false := List.isEmpty_eq_false_iff.mpr hne
  simp only [splitBody?, hInfinity, ite_self, hInteger, hFraction, hEmpty, Bool.false_and,
    Bool.false_eq_true, if_false]

/-- A sign, an affix, a body and an affix are read as that sign and body. -/
theorem read?_append {a b text : List Char} {negative : Bool} {body : Body} (hMinus : s.minus ≠ [])
    (hSign : HeadNot isWhiteSpace s.minus) (hLeading : s.leading = trim a)
    (hTrailing : s.trailing = trim b) (hInk : HeadNot isWhiteSpace (text ++ b))
    (hBody : s.splitBody? (text ++ b) = some (body, b))
    (hBefore : HeadNot s.isMinusHead (trimLeft (a ++ (text ++ b))))
    (hAfter : HeadNot s.isMinusHead (text ++ b)) :
    s.read? ((if negative then s.minus else []) ++ (a ++ (text ++ b))) = some ⟨negative, body⟩ := by
  have hPrefix := trimLeft_skipText_trim a hInk
  have hSuffix := trimLeft_skipText_trim b (headNot_nil isWhiteSpace)
  rw [List.append_nil] at hSuffix
  have hText := trimLeft_of_headNot hInk
  cases negative with
  | true =>
    have hInk' : HeadNot isWhiteSpace (s.minus ++ (a ++ (text ++ b))) :=
      (headNot_append_iff hMinus _).mpr hSign
    simp only [read?, if_true, trimLeft_of_headNot hInk', splitMinus_append, hLeading, hTrailing,
      hPrefix, hText, hBody, Option.bind_eq_bind, Option.bind_some, hSuffix, List.isEmpty_nil,
      Bool.or_false]
  | false =>
    have hTrim : trimLeft (trimLeft (a ++ (text ++ b))) = trimLeft (a ++ (text ++ b)) :=
      trimLeft_of_headNot (headNot_trimLeft _)
    simp only [read?, Bool.false_eq_true, if_false, List.nil_append,
      splitMinus_of_headNot s hMinus hBefore, hTrim, hLeading, hTrailing, hPrefix,
      splitMinus_of_headNot s hMinus hAfter, hText, hBody, Option.bind_eq_bind, Option.bind_some,
      hSuffix, List.isEmpty_nil, if_true, Bool.or_false]

end Symbols

end Numeral
