import Mathlib.Data.List.TakeWhile
import Numeral.Text.WhiteSpace

/-!
# Where a run of characters ends

A scanner takes the longest run of characters of a class.  `HeadNot p` says that no such run starts
a text, and then a run put before it is cut off exactly (`takeWhile_append_of_headNot`,
`dropWhile_append_of_headNot`).  The second part is about white space: `exists_eq_append_trim` parts
a text into white space, the trimmed text and white space again, so a text without white space is
trimmed already (`trim_of_ink`).
-/

namespace Numeral.Text

/-- What the characters of a text have in common is decided by going through the text.  There are
finitely many characters, but trying them all is out of reach. -/
instance (priority := high) decidableForallMem (p : Char → Prop) [DecidablePred p]
    (cs : List Char) : Decidable (∀ c ∈ cs, p c) :=
  List.decidableBAll p cs

/-- The text does not start with a character of the class. -/
def HeadNot (p : Char → Bool) (cs : List Char) : Prop := ∀ c ∈ cs.head?, p c = false

variable {p : Char → Bool} {cs : List Char}

theorem headNot_nil (p : Char → Bool) : HeadNot p [] := by
  intro c hc
  cases hc

theorem headNot_cons_iff {c : Char} : HeadNot p (c :: cs) ↔ p c = false := by
  constructor
  · intro h
    exact h c rfl
  · intro h d hd
    rw [List.head?_cons, Option.mem_some_iff] at hd
    exact hd ▸ h

instance decidableHeadNot (p : Char → Bool) : (cs : List Char) → Decidable (HeadNot p cs)
  | [] => isTrue (headNot_nil p)
  | _ :: _ => decidable_of_iff _ headNot_cons_iff.symm

theorem headNot_append_iff (hne : cs ≠ []) (ds : List Char) :
    HeadNot p (cs ++ ds) ↔ HeadNot p cs := by
  obtain ⟨c, cs, rfl⟩ := List.exists_cons_of_ne_nil hne
  rw [List.cons_append, headNot_cons_iff, headNot_cons_iff]

theorem takeWhile_of_headNot (h : HeadNot p cs) : cs.takeWhile p = [] := by
  cases cs with
  | nil => rfl
  | cons c cs =>
    refine List.takeWhile_cons_of_neg ?_
    rw [headNot_cons_iff.mp h]
    exact Bool.false_ne_true

theorem dropWhile_of_headNot (h : HeadNot p cs) : cs.dropWhile p = cs := by
  cases cs with
  | nil => rfl
  | cons c cs =>
    refine List.dropWhile_cons_of_neg ?_
    rw [headNot_cons_iff.mp h]
    exact Bool.false_ne_true

theorem takeWhile_append_of_headNot {l : List Char} (hl : ∀ c ∈ l, p c = true) (h : HeadNot p cs) :
    (l ++ cs).takeWhile p = l := by
  rw [List.takeWhile_append_of_pos hl, takeWhile_of_headNot h, List.append_nil]

theorem dropWhile_append_of_headNot {l : List Char} (hl : ∀ c ∈ l, p c = true) (h : HeadNot p cs) :
    (l ++ cs).dropWhile p = cs := by
  rw [List.dropWhile_append_of_pos hl, dropWhile_of_headNot h]

theorem headNot_dropWhile (p : Char → Bool) (cs : List Char) : HeadNot p (cs.dropWhile p) := by
  intro c hc
  have hHead := List.head?_dropWhile_not p cs
  rw [Option.mem_def.mp hc] at hHead
  exact hHead

/-! ## White space -/

theorem trimLeft_of_headNot (h : HeadNot isWhiteSpace cs) : trimLeft cs = cs :=
  dropWhile_of_headNot h

theorem trimLeft_append_of_all {l : List Char} (h : ∀ c ∈ l, isWhiteSpace c = true)
    (cs : List Char) : trimLeft (l ++ cs) = trimLeft cs :=
  List.dropWhile_append_of_pos h

theorem headNot_trimLeft (cs : List Char) : HeadNot isWhiteSpace (trimLeft cs) :=
  headNot_dropWhile isWhiteSpace cs

theorem exists_eq_trimLeft (cs : List Char) :
    ∃ l, cs = l ++ trimLeft cs ∧ ∀ c ∈ l, isWhiteSpace c = true :=
  ⟨cs.takeWhile isWhiteSpace, List.takeWhile_append_dropWhile.symm,
    fun _ hc => List.mem_takeWhile_imp hc⟩

theorem exists_eq_trimRight (cs : List Char) :
    ∃ r, cs = trimRight cs ++ r ∧ ∀ c ∈ r, isWhiteSpace c = true := by
  obtain ⟨l, hl, hAll⟩ := exists_eq_trimLeft cs.reverse
  refine ⟨l.reverse, ?_, fun c hc => hAll c (List.mem_reverse.mp hc)⟩
  have hReverse := congrArg List.reverse hl
  rwa [List.reverse_reverse, List.reverse_append] at hReverse

theorem headNot_trim (cs : List Char) : HeadNot isWhiteSpace (trim cs) := by
  obtain ⟨r, hr, -⟩ := exists_eq_trimRight (trimLeft cs)
  have hLeft := headNot_trimLeft cs
  cases ht : trim cs with
  | nil => exact headNot_nil _
  | cons d ds =>
    rw [show trimRight (trimLeft cs) = d :: ds from ht] at hr
    rw [hr] at hLeft
    exact headNot_cons_iff.mpr (headNot_cons_iff.mp hLeft)

/-- A text is its trimmed text between two runs of white space. -/
theorem exists_eq_append_trim (cs : List Char) :
    ∃ l r, cs = l ++ (trim cs ++ r) ∧ (∀ c ∈ l, isWhiteSpace c = true) ∧
      ∀ c ∈ r, isWhiteSpace c = true := by
  obtain ⟨l, hl, hAll⟩ := exists_eq_trimLeft cs
  obtain ⟨r, hr, hAll'⟩ := exists_eq_trimRight (trimLeft cs)
  exact ⟨l, r, hl.trans (congrArg (l ++ ·) hr), hAll, hAll'⟩

theorem mem_of_mem_trim {c : Char} (h : c ∈ trim cs) : c ∈ cs := by
  obtain ⟨l, r, hcs, -, -⟩ := exists_eq_append_trim cs
  rw [hcs]
  exact List.mem_append_right l (List.mem_append_left r h)

theorem not_isWhiteSpace_of_isDigit {c : Char} (h : c.isDigit = true) : isWhiteSpace c = false := by
  obtain ⟨hLow, hHigh⟩ := Char.isDigit_iff_toNat.mp h
  have hZero : '0'.toNat = 48 := rfl
  have hNine : '9'.toNat = 57 := rfl
  simp only [isWhiteSpace, Bool.or_eq_false_iff, Bool.and_eq_false_iff, decide_eq_false_iff_not,
    beq_eq_false_iff_ne]
  omega

/-- A text without white space is trimmed already. -/
theorem trim_of_ink (h : ∀ c ∈ cs, isWhiteSpace c = false) : trim cs = cs := by
  obtain ⟨l, r, hcs, hl, hr⟩ := exists_eq_append_trim cs
  have hNil : ∀ w : List Char, (∀ c ∈ w, c ∈ cs) → (∀ c ∈ w, isWhiteSpace c = true) → w = [] := by
    intro w hMem hBlank
    refine List.eq_nil_iff_forall_not_mem.mpr fun c hc => ?_
    have hInk := h c (hMem c hc)
    rw [hBlank c hc] at hInk
    cases hInk
  have hLeft : l = [] := hNil l (fun c hc => hcs ▸ List.mem_append_left _ hc) hl
  have hRight : r = [] :=
    hNil r (fun c hc => hcs ▸ List.mem_append_right _ (List.mem_append_right _ hc)) hr
  rw [hLeft, hRight, List.nil_append, List.append_nil] at hcs
  exact hcs.symm

/-- White space at the end of a text is trimmed, and nothing else. -/
theorem trim_append_of_all {r : List Char} (h : HeadNot isWhiteSpace cs)
    (h' : HeadNot isWhiteSpace cs.reverse) (hne : cs ≠ []) (hr : ∀ c ∈ r, isWhiteSpace c = true) :
    trim (cs ++ r) = cs := by
  have hLeft : trimLeft (cs ++ r) = cs ++ r :=
    trimLeft_of_headNot ((headNot_append_iff hne r).mpr h)
  have hRight : (r.reverse ++ cs.reverse).dropWhile isWhiteSpace = cs.reverse :=
    dropWhile_append_of_headNot (fun c hc => hr c (List.mem_reverse.mp hc)) h'
  rw [trim, hLeft, trimRight, List.reverse_append, hRight, List.reverse_reverse]

/-- Before a text that starts with ink, only the leading white space of another text is trimmed. -/
theorem exists_trimLeft_append (a : List Char) {rest : List Char}
    (hRest : HeadNot isWhiteSpace rest) :
    ∃ r, trimLeft (a ++ rest) = trim a ++ (r ++ rest) ∧ (∀ c ∈ r, isWhiteSpace c = true) ∧
      (trim a = [] → r = []) := by
  obtain ⟨l, r, ha, hl, hr⟩ := exists_eq_append_trim a
  have hStart : trimLeft (a ++ rest) = trimLeft (trim a ++ (r ++ rest)) := by
    have hParts := congrArg (fun b => trimLeft (b ++ rest)) ha
    rwa [List.append_assoc, List.append_assoc, trimLeft_append_of_all hl] at hParts
  by_cases ht : trim a = []
  · refine ⟨[], ?_, by simp, fun _ => rfl⟩
    rw [hStart, ht, List.nil_append, List.nil_append, List.nil_append, trimLeft_append_of_all hr,
      trimLeft_of_headNot hRest]
  · refine ⟨r, ?_, hr, fun h => absurd h ht⟩
    rw [hStart]
    exact trimLeft_of_headNot ((headNot_append_iff ht _).mpr (headNot_trim a))

theorem headNot_trimLeft_append {a rest : List Char} (h : HeadNot p (trim a))
    (h' : HeadNot p rest) (hRest : HeadNot isWhiteSpace rest) :
    HeadNot p (trimLeft (a ++ rest)) := by
  obtain ⟨r, hr, -, hBlank⟩ := exists_trimLeft_append a hRest
  rw [hr]
  by_cases ht : trim a = []
  · rw [ht, hBlank ht]
    exact h'
  · exact (headNot_append_iff ht _).mpr h

end Numeral.Text
