import Numeral.Proofs.Conventions.Grammar
import Numeral.Proofs.Conventions.Legible

/-!
# What follows the grammar is accepted

The reader never goes back, so it might take too much or too little of a part and then fail on a
text that follows the grammar.  Where the parts are told apart by how they start
(`Symbols.Distinct`), it does not: no digits stand behind the body, so a run of digits that goes on
belongs to it (`IsBody.splitBody?_append`), and neither an affix nor a sign is ever taken for
something else (`IsFront.splitFront_append`).  A text then has one reading at most, however it is
parted (`Distinct.read?_eq_some_iff`).
-/

namespace Numeral

open Text

/-! ## Runs of digits -/

/-- No group starts where there are no digits. -/
theorem splitGroups_of_digitless (separator : Char) {rest : List Char}
    (h : ∀ c ∈ rest, c.isDigit = false) : splitGroups separator rest = ([], rest) := by
  cases rest with
  | nil => rw [splitGroups]
  | cons c rest =>
    have hRun : rest.takeWhile Char.isDigit = [] :=
      takeWhile_of_headNot fun d hd => h d (List.mem_cons_of_mem c (List.mem_of_mem_head? hd))
    rw [splitGroups, if_neg]
    rintro ⟨-, hEmpty⟩
    rw [hRun] at hEmpty
    cases hEmpty

namespace Symbols

/-- Whether a body starts with this character. -/
def isBodyHead (s : Symbols) (c : Char) : Bool :=
  c.isDigit || c == s.decimal || s.infinity.head? == some c

/-- The parts of a number are told apart by how they start, and no digits stand in the affix behind
it. -/
structure Distinct (s : Symbols) : Prop where
  minus : s.minus = ['-'] ∨ s.minus = ['\u2212']
  infinity_ne_nil : s.infinity ≠ []
  infinity : HeadNot (fun c => c.isDigit || c == s.decimal) s.infinity
  decimal_digit : s.decimal.isDigit = false
  group_digit : s.group.isDigit = false
  decimal_ne_group : s.decimal ≠ s.group
  body : ∀ c, s.isBodyHead c = true → isWhiteSpace c = false ∧ s.isMinusHead c = false
  leading : HeadNot (fun c => isWhiteSpace c || s.isMinusHead c || s.isBodyHead c) s.leading
  trailing : HeadNot isWhiteSpace s.trailing
  trailing_digitless : ∀ c ∈ s.trailing, c.isDigit = false

variable {s : Symbols}

theorem Distinct.hasInfinity (hs : s.Distinct) : s.HasInfinity :=
  ⟨hs.infinity_ne_nil, fun c hc => (Bool.or_eq_false_iff.mp (hs.infinity c hc)).1⟩

theorem splitFraction_of_digitless (s : Symbols) {rest : List Char}
    (h : ∀ c ∈ rest, c.isDigit = false) : s.splitFraction rest = ([], rest) := by
  obtain ⟨hNil, hRest⟩ | ⟨hRun, hRest⟩ := s.splitFraction_cases rest
  · exact Prod.ext hNil hRest.symm
  · obtain ⟨d, ds, hds, hd⟩ := hRun.exists_cons
    have hNoDigit := h d (by rw [hRest, hds]; simp)
    rw [hd] at hNoDigit
    cases hNoDigit

theorem IsBody.exists_cons {body : Body} {text : List Char} (h : s.IsBody body text) :
    ∃ c cs, text = c :: cs ∧ s.isBodyHead c = true := by
  have hDigit : ∀ c : Char, c.isDigit = true → s.isBodyHead c = true := fun c hc => by
    rw [isBodyHead, hc, Bool.true_or, Bool.true_or]
  have hDecimal : s.isBodyHead s.decimal = true := by
    rw [isBodyHead, beq_self_eq_true, Bool.or_true, Bool.true_or]
  cases h with
  | infinity hne =>
    obtain ⟨c, cs, hcs⟩ := List.exists_cons_of_ne_nil hne
    refine ⟨c, cs, hcs, ?_⟩
    rw [isBodyHead, hcs, List.head?_cons, beq_self_eq_true, Bool.or_true]
  | integer hText =>
    obtain ⟨d, cs, rfl, hd⟩ := hText.exists_cons
    exact ⟨d, cs, rfl, hDigit d hd⟩
  | decimal hText _ =>
    obtain ⟨d, cs, rfl, hd⟩ := hText.exists_cons
    exact ⟨d, _, rfl, hDigit d hd⟩
  | fraction _ => exact ⟨s.decimal, _, rfl, hDecimal⟩

/-- A body is taken to its end, and what has no digits is left. -/
theorem IsBody.splitBody?_append (hs : s.Distinct) {body : Body} {text rest : List Char}
    (h : s.IsBody body text) (hRest : ∀ c ∈ rest, c.isDigit = false) :
    s.splitBody? (text ++ rest) = some (body, rest) := by
  have hHead : HeadNot Char.isDigit rest := fun c hc => hRest c (List.mem_of_mem_head? hc)
  have hDecimal : ∀ cs, HeadNot Char.isDigit (s.decimal :: cs) :=
    fun _ => headNot_cons_iff.mpr hs.decimal_digit
  cases h with
  | infinity _ => exact hs.hasInfinity.splitBody?_append rest
  | integer hText =>
    exact hs.hasInfinity.splitBody?_of_splitInteger
      (s.splitInteger_of_grouped hs.group_digit hText hHead (splitGroups_of_digitless _ hRest))
      hText.digits_ne_nil (s.splitFraction_of_digitless hRest)
  | @decimal text ds fraction hText hRun =>
    have hEnd : splitGroups s.group (s.decimal :: (fraction ++ rest)) =
        ([], s.decimal :: (fraction ++ rest)) :=
      splitGroups_of_headNot (headNot_cons_iff.mpr (beq_eq_false_iff_ne.mpr hs.decimal_ne_group))
    rw [List.append_assoc, List.cons_append]
    exact hs.hasInfinity.splitBody?_of_splitInteger
      (s.splitInteger_of_grouped hs.group_digit hText (hDecimal _) hEnd)
      hText.digits_ne_nil (s.splitFraction_cons hRun.ne_nil hRun.isDigit hHead)
  | @fraction fraction hRun =>
    have hInfinity : afterText? s.infinity (s.decimal :: (fraction ++ rest)) = none := by
      refine afterText?_eq_none_of_head? hs.infinity_ne_nil (fun he => ?_) _
      exact beq_eq_false_iff_ne.mp (Bool.or_eq_false_iff.mp (hs.infinity _ he)).2 rfl
    have hEmpty : fraction.isEmpty = false := List.isEmpty_eq_false_iff.mpr hRun.ne_nil
    rw [List.cons_append]
    simp only [splitBody?, hInfinity, ite_self, splitInteger_of_headNot s (hDecimal _),
      s.splitFraction_cons hRun.ne_nil hRun.isDigit hHead, hEmpty, Bool.and_false,
      Bool.false_eq_true, if_false]

end Symbols

theorem isBlank_nil : IsBlank [] := fun _ hc => absurd hc List.not_mem_nil

theorem IsBlank.append {w w' : List Char} (h : IsBlank w) (h' : IsBlank w') : IsBlank (w ++ w') :=
  fun c hc => (List.mem_append.mp hc).elim (h c) (h' c)

theorem skipText_of_head? {t : List Char} {c : Char} (h : t.head? ≠ some c) (cs : List Char) :
    skipText t (c :: cs) = c :: cs := by
  cases t with
  | nil => rfl
  | cons d t =>
    rw [skipText, afterText?_eq_none_of_head? (List.cons_ne_nil d t) h, Option.getD_none]

/-- Behind white space there is the affix, or what stands behind it. -/
theorem trimLeft_affix {t w a w' rest : List Char} (ht : HeadNot isWhiteSpace t) (hw : IsBlank w)
    (ha : IsOptional t a) (hw' : IsBlank w') (hInk : HeadNot isWhiteSpace rest) :
    trimLeft (w ++ (a ++ (w' ++ rest))) = rest ∨
      t ≠ [] ∧ trimLeft (w ++ (a ++ (w' ++ rest))) = t ++ (w' ++ rest) := by
  rw [trimLeft_append_of_all hw]
  have hAbsent : trimLeft ([] ++ (w' ++ rest)) = rest := by
    rw [List.nil_append, trimLeft_append_of_all hw', trimLeft_of_headNot hInk]
  rcases ha with rfl | rfl
  · exact Or.inl hAbsent
  · by_cases hne : a = []
    · subst hne
      exact Or.inl hAbsent
    · exact Or.inr ⟨hne, trimLeft_of_headNot ((headNot_append_iff hne _).mpr ht)⟩

/-- An affix is skipped with the white space around it, and what cannot be the affix is left. -/
theorem skipAffix_append {t w a w' rest : List Char} (ht : HeadNot isWhiteSpace t) (hw : IsBlank w)
    (ha : IsOptional t a) (hw' : IsBlank w') (hInk : HeadNot isWhiteSpace rest)
    (hSkip : skipText t rest = rest) : skipAffix t (w ++ (a ++ (w' ++ rest))) = rest := by
  rw [skipAffix]
  obtain h | ⟨-, h⟩ := trimLeft_affix ht hw ha hw' hInk
  · rw [h, hSkip, trimLeft_of_headNot hInk]
  · rw [h, skipText_append, trimLeft_append_of_all hw', trimLeft_of_headNot hInk]

theorem skipAffix_trimLeft (t cs : List Char) : skipAffix t (trimLeft cs) = skipAffix t cs := by
  rw [skipAffix, skipAffix, trimLeft_of_headNot (headNot_trimLeft cs)]

namespace Symbols

variable {s : Symbols}

theorem IsMinus.eq_nil {m : List Char} (h : s.IsMinus false m) : m = [] := by
  cases h
  rfl

namespace Distinct

theorem minus_ne_nil (hs : s.Distinct) : s.minus ≠ [] := by
  rcases hs.minus with h | h
  · rw [h]
    exact List.cons_ne_nil _ _
  · rw [h]
    exact List.cons_ne_nil _ _

/-- A minus sign is one character, and is no white space. -/
theorem exists_of_isMinus (hs : s.Distinct) {m : List Char} (h : s.IsMinus true m) :
    ∃ c, m = [c] ∧ isWhiteSpace c = false ∧ s.isMinusHead c = true := by
  have hHyphen : s.isMinusHead '-' = true := by
    rw [isMinusHead, beq_self_eq_true '-', Bool.or_true, Bool.true_or]
  have hSign : s.isMinusHead '\u2212' = true := by
    rw [isMinusHead, beq_self_eq_true '\u2212', Bool.or_true]
  cases h with
  | own =>
    rcases hs.minus with h | h
    · exact ⟨'-', h, rfl, hHyphen⟩
    · exact ⟨'\u2212', h, rfl, hSign⟩
  | hyphen => exact ⟨'-', rfl, rfl, hHyphen⟩
  | sign => exact ⟨'\u2212', rfl, rfl, hSign⟩

/-- Each minus sign is recognized, whichever of them the locale writes. -/
theorem splitMinus_append (hs : s.Distinct) {m : List Char} (h : s.IsMinus true m)
    (rest : List Char) : s.splitMinus (m ++ rest) = (true, rest) := by
  have hOwn := s.splitMinus_append rest
  cases h with
  | own => exact hOwn
  | hyphen =>
    rcases hs.minus with hm | hm
    · rwa [hm] at hOwn
    · rw [splitMinus, hm]
      rfl
  | sign =>
    rcases hs.minus with hm | hm
    · rw [splitMinus, hm]
      rfl
    · rwa [hm] at hOwn

variable {w a w' m w'' : List Char} {c : Char}

theorem headNot_space (hs : s.Distinct) (hc : s.isBodyHead c = true) (cs : List Char) :
    HeadNot isWhiteSpace (c :: cs) :=
  headNot_cons_iff.mpr (hs.body c hc).1

theorem headNot_minus (hs : s.Distinct) (hc : s.isBodyHead c = true) (cs : List Char) :
    HeadNot s.isMinusHead (c :: cs) :=
  headNot_cons_iff.mpr (hs.body c hc).2

theorem leading_space (hs : s.Distinct) : HeadNot isWhiteSpace s.leading := fun c hc => by
  have h := hs.leading c hc
  simp only [Bool.or_eq_false_iff] at h
  exact h.1.1

theorem leading_minus (hs : s.Distinct) : HeadNot s.isMinusHead s.leading := fun c hc => by
  have h := hs.leading c hc
  simp only [Bool.or_eq_false_iff] at h
  exact h.1.2

/-- Neither a sign nor a body is taken for the affix before it. -/
theorem skipText_leading (hs : s.Distinct) (hc : s.isMinusHead c = true ∨ s.isBodyHead c = true)
    (cs : List Char) : skipText s.leading (c :: cs) = c :: cs := by
  refine skipText_of_head? (fun he => ?_) cs
  have h := hs.leading c he
  simp only [Bool.or_eq_false_iff] at h
  rcases hc with hc | hc
  · rw [hc] at h
    cases h.1.2
  · rw [hc] at h
    cases h.2

theorem skipAffix_leading (hs : s.Distinct) (hw : IsBlank w) (ha : IsOptional s.leading a)
    (hw' : IsBlank w') (hc : s.isBodyHead c = true) (cs : List Char) :
    skipAffix s.leading (w ++ (a ++ (w' ++ c :: cs))) = c :: cs :=
  skipAffix_append hs.leading_space hw ha hw' (hs.headNot_space hc cs)
    (hs.skipText_leading (Or.inr hc) cs)

/-! ### What stands before a body -/

theorem splitFront_plain (hs : s.Distinct) (hw : IsBlank w) (ha : IsOptional s.leading a)
    (hw' : IsBlank w') (hc : s.isBodyHead c = true) (cs : List Char) :
    s.splitFront (w ++ (a ++ (w' ++ c :: cs))) = (false, c :: cs) := by
  have hMinus : HeadNot s.isMinusHead (trimLeft (w ++ (a ++ (w' ++ c :: cs)))) := by
    obtain h | ⟨hne, h⟩ := trimLeft_affix hs.leading_space hw ha hw' (hs.headNot_space hc cs)
    · rw [h]
      exact hs.headNot_minus hc cs
    · rw [h]
      exact (headNot_append_iff hne _).mpr hs.leading_minus
  simp only [splitFront, s.splitMinus_of_headNot hs.minus_ne_nil hMinus, skipAffix_trimLeft,
    hs.skipAffix_leading hw ha hw' hc cs, splitMinusUnless, Bool.false_eq_true, if_false,
    s.splitMinus_of_headNot hs.minus_ne_nil (hs.headNot_minus hc cs), Bool.or_false,
    trimLeft_of_headNot (hs.headNot_space hc cs)]

theorem splitFront_before (hs : s.Distinct) (hw : IsBlank w) (hm : s.IsMinus true m)
    (hw' : IsBlank w') (ha : IsOptional s.leading a) (hw'' : IsBlank w'')
    (hc : s.isBodyHead c = true) (cs : List Char) :
    s.splitFront (w ++ (m ++ (w' ++ (a ++ (w'' ++ c :: cs))))) = (true, c :: cs) := by
  have hTrim : trimLeft (w ++ (m ++ (w' ++ (a ++ (w'' ++ c :: cs))))) =
      m ++ (w' ++ (a ++ (w'' ++ c :: cs))) := by
    obtain ⟨ch, rfl, hSpace, -⟩ := hs.exists_of_isMinus hm
    rw [trimLeft_append_of_all hw]
    exact trimLeft_of_headNot (headNot_cons_iff.mpr hSpace)
  simp only [splitFront, hTrim, hs.splitMinus_append hm, hs.skipAffix_leading hw' ha hw'' hc cs,
    splitMinusUnless, if_true, Bool.true_or, trimLeft_of_headNot (hs.headNot_space hc cs)]

theorem splitFront_after (hs : s.Distinct) (hw : IsBlank w) (hne : s.leading ≠ [])
    (hw' : IsBlank w') (hm : s.IsMinus true m) (hw'' : IsBlank w'') (hc : s.isBodyHead c = true)
    (cs : List Char) :
    s.splitFront (w ++ (s.leading ++ (w' ++ (m ++ (w'' ++ c :: cs))))) = (true, c :: cs) := by
  -- the sign behind the affix stops the white space and is not part of the affix
  have hAffix : skipAffix s.leading (w ++ (s.leading ++ (w' ++ (m ++ (w'' ++ c :: cs))))) =
      m ++ (w'' ++ c :: cs) := by
    obtain ⟨ch, rfl, hSpace, hHead⟩ := hs.exists_of_isMinus hm
    exact skipAffix_append hs.leading_space hw (Or.inr rfl) hw' (headNot_cons_iff.mpr hSpace)
      (hs.skipText_leading (Or.inl hHead) _)
  have hMinus : HeadNot s.isMinusHead
      (trimLeft (w ++ (s.leading ++ (w' ++ (m ++ (w'' ++ c :: cs)))))) := by
    rw [trimLeft_append_of_all hw,
      trimLeft_of_headNot ((headNot_append_iff hne _).mpr hs.leading_space)]
    exact (headNot_append_iff hne _).mpr hs.leading_minus
  simp only [splitFront, s.splitMinus_of_headNot hs.minus_ne_nil hMinus, skipAffix_trimLeft, hAffix,
    splitMinusUnless, Bool.false_eq_true, if_false, hs.splitMinus_append hm, Bool.or_true,
    trimLeft_append_of_all hw'', trimLeft_of_headNot (hs.headNot_space hc cs)]

end Distinct

/-- What stands before a body is taken, however it is parted, and the body is left. -/
theorem IsFront.splitFront_append (hs : s.Distinct) {negative : Bool} {front : List Char} {c : Char}
    (h : s.IsFront negative front) (hc : s.isBodyHead c = true) (cs : List Char) :
    s.splitFront (front ++ c :: cs) = (negative, c :: cs) := by
  obtain ⟨hw₀, hBefore, hw₁, hLeading, hw₂, hAfter, hw₃, hOnce⟩ := h
  rename_i before after w₀ m w₁ a w₂ m' w₃
  simp only [List.append_assoc]
  cases before with
  | true =>
    obtain rfl := hOnce.resolve_left Bool.noConfusion
    obtain rfl := hAfter.eq_nil
    have hFront := hs.splitFront_before hw₀ hBefore hw₁ hLeading (hw₂.append hw₃) hc cs
    rwa [List.append_assoc] at hFront
  | false =>
    obtain rfl := hBefore.eq_nil
    cases after with
    | false =>
      obtain rfl := hAfter.eq_nil
      have hFront := hs.splitFront_plain (hw₀.append hw₁) hLeading (hw₂.append hw₃) hc cs
      rwa [List.append_assoc, List.append_assoc] at hFront
    | true =>
      -- without an affix the sign might as well stand before it
      have hAbsent : s.splitFront
          (w₀ ++ ([] ++ (w₁ ++ ([] ++ (w₂ ++ (m' ++ (w₃ ++ c :: cs))))))) = (true, c :: cs) := by
        have hFront := hs.splitFront_before ((hw₀.append hw₁).append hw₂) hAfter hw₃
          (Or.inl rfl) isBlank_nil hc cs
        rwa [List.append_assoc, List.append_assoc] at hFront
      rcases hLeading with rfl | rfl
      · exact hAbsent
      · by_cases hne : s.leading = []
        · rw [hne]
          exact hAbsent
        · have hFront := hs.splitFront_after (hw₀.append hw₁) hne hw₂ hAfter hw₃ hc cs
          rwa [List.append_assoc] at hFront

/-! ### What stands behind a body -/

theorem IsBack.digitless (hs : s.Distinct) {back : List Char} (h : s.IsBack back) :
    ∀ c ∈ back, c.isDigit = false := by
  obtain ⟨hw₄, hTrailing, hw₅⟩ := h
  have hSpace : ∀ c, isWhiteSpace c = true → c.isDigit = false := fun c hc =>
    Bool.eq_false_iff.mpr fun hDigit => by
      rw [not_isWhiteSpace_of_isDigit hDigit] at hc
      cases hc
  intro c hc
  simp only [List.mem_append] at hc
  rcases hc with hc | hc | hc
  · exact hSpace c (hw₄ c hc)
  · rcases hTrailing with rfl | rfl
    · cases hc
    · exact hs.trailing_digitless c hc
  · exact hSpace c (hw₅ c hc)

theorem IsBack.skipAffix_eq_nil (hs : s.Distinct) {back : List Char} (h : s.IsBack back) :
    skipAffix s.trailing back = [] := by
  obtain ⟨hw₄, hTrailing, hw₅⟩ := h
  have hNil : skipText s.trailing [] = [] := by
    cases h : s.trailing <;> rfl
  have hSkip := skipAffix_append hs.trailing hw₄ hTrailing hw₅ (headNot_nil _) hNil
  rwa [List.append_nil] at hSkip

/-- **The reader accepts exactly its grammar**, and reads the same however a text is parted. -/
theorem Distinct.read?_eq_some_iff (hs : s.Distinct) {cs : List Char} {r : Reading} :
    s.read? cs = some r ↔ s.Spells cs r := by
  constructor
  · exact Spells.of_read?
  · rintro ⟨hFront, hBody, hBack⟩
    rename_i negative body front text back
    have hText := hBody.splitBody?_append hs (hBack.digitless hs)
    obtain ⟨c, cs, rfl, hc⟩ := hBody.exists_cons
    have hSplit := hFront.splitFront_append hs hc (cs ++ back)
    refine read?_eq_some_iff_parts.mpr ⟨back, ?_, hBack.skipAffix_eq_nil hs, ?_⟩
    · rw [List.cons_append, hSplit]
      exact hText
    · rw [List.cons_append, hSplit]

end Symbols

end Numeral
