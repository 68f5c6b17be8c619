import Mathlib.Algebra.Order.Field.Rat
import Mathlib.Tactic.FieldSimp
import Numeral.Proofs.Decimal.Literal

/-!
# The grammar of decimal literals

A decimal literal is a sign, a mantissa and an exponent (`SpellsDecimal`).  The sign and the
exponent may be absent, and in the mantissa either side of the point, but not both, may be without
digits.  The grammar says which number the literal denotes by the digits on the two sides of the
point.

The reader accepts exactly these texts, and reads the number that the grammar gives them
(`SpellsDecimal.exists_parse?`, `SpellsDecimal.of_parse?`), so a text is a literal of one number at
most (`SpellsDecimal.unique`).
-/

namespace Numeral.Decimal

open Text

/-- The text is an optional sign, and the truth value says whether it is a minus. -/
inductive SpellsSign : List Char → Bool → Prop
  | absent : SpellsSign [] false
  | plus : SpellsSign ['+'] false
  | minus : SpellsSign ['-'] true

/-- The text is an optional exponent. -/
inductive SpellsExponent : List Char → Int → Prop
  | absent : SpellsExponent [] 0
  | marked {mark : Char} {sign ds : List Char} {negative : Bool} (hMark : mark = 'e' ∨ mark = 'E')
      (hSign : SpellsSign sign negative) (hne : ds ≠ []) (hDigits : ∀ c ∈ ds, c.isDigit = true) :
      SpellsExponent (mark :: (sign ++ ds))
        (if negative then -(readDigits ds : Int) else readDigits ds)

/-- The text is digits with an optional point, and these are the digits on its two sides. -/
inductive SpellsMantissa : List Char → List Char → List Char → Prop
  | plain {whole : List Char} (hWhole : ∀ c ∈ whole, c.isDigit = true) (hne : whole ≠ []) :
      SpellsMantissa whole whole []
  | pointed {whole fraction : List Char} (hWhole : ∀ c ∈ whole, c.isDigit = true)
      (hFraction : ∀ c ∈ fraction, c.isDigit = true) (hne : whole ++ fraction ≠ []) :
      SpellsMantissa (whole ++ '.' :: fraction) whole fraction

/-- The text is a decimal literal with this sign, for a number that without its sign is this one. -/
inductive SpellsDecimal : List Char → Bool → ℚ → Prop
  | intro {sign mantissa whole fraction exponent : List Char} {negative : Bool} {e : Int}
      (hSign : SpellsSign sign negative) (hMantissa : SpellsMantissa mantissa whole fraction)
      (hExponent : SpellsExponent exponent e) :
      SpellsDecimal (sign ++ (mantissa ++ exponent)) negative
        ((readDigits whole + readDigits fraction / 10 ^ fraction.length) * 10 ^ e)

/-- The number that a literal denotes, without its sign. -/
def Literal.toRat (l : Literal) : ℚ := l.coefficient * 10 ^ l.exponent

@[simp]
theorem readDigits_nil : readDigits [] = 0 := rfl

theorem readDigits_append (as bs : List Char) :
    readDigits (as ++ bs) = readDigits as * 10 ^ bs.length + readDigits bs := by
  rw [readDigits, List.map_append, ofDigits_append, List.length_map, readDigits, readDigits]

/-- The digits on both sides of the point, read as one number, are scaled down by the fraction. -/
theorem toRat_readDigits (negative : Bool) (whole fraction : List Char) (e : Int) :
    Literal.toRat ⟨negative, readDigits (whole ++ fraction), e - fraction.length⟩ =
      (readDigits whole + readDigits fraction / 10 ^ fraction.length) * 10 ^ e := by
  have hTen : (10 : ℚ) ≠ 0 := by norm_num
  rw [Literal.toRat, readDigits_append, zpow_sub₀ hTen, zpow_natCast]
  push_cast
  field_simp

/-! ## What starts a part -/

/-- Whether this is a sign. -/
def isSign (c : Char) : Bool := c == '+' || c == '-'

/-- Whether this is a digit or the point. -/
def isDigitOrPoint (c : Char) : Bool := c.isDigit || c == '.'

theorem headNot_isSign_of_isDigitOrPoint {c : Char} (h : isDigitOrPoint c = true) (cs : List Char) :
    HeadNot isSign (c :: cs) := by
  rw [headNot_cons_iff, isSign, Bool.or_eq_false_iff, beq_eq_false_iff_ne, beq_eq_false_iff_ne]
  constructor
  · rintro rfl
    cases h
  · rintro rfl
    cases h

theorem isDigitOrPoint_of_isDigit {c : Char} (h : c.isDigit = true) : isDigitOrPoint c = true := by
  rw [isDigitOrPoint, h, Bool.true_or]

theorem SpellsMantissa.headNot_isSign {m whole fraction : List Char}
    (h : SpellsMantissa m whole fraction) (rest : List Char) : HeadNot isSign (m ++ rest) := by
  cases h with
  | plain hWhole hne =>
    obtain ⟨c, cs, rfl⟩ := List.exists_cons_of_ne_nil hne
    have hDigit := hWhole c List.mem_cons_self
    exact headNot_isSign_of_isDigitOrPoint (isDigitOrPoint_of_isDigit hDigit) _
  | pointed hWhole =>
    cases whole with
    | nil => exact headNot_isSign_of_isDigitOrPoint rfl _
    | cons c cs =>
      have hDigit := hWhole c List.mem_cons_self
      exact headNot_isSign_of_isDigitOrPoint (isDigitOrPoint_of_isDigit hDigit) _

theorem SpellsExponent.headNot_isDigitOrPoint {cs : List Char} {e : Int} (h : SpellsExponent cs e) :
    HeadNot isDigitOrPoint cs := by
  cases h with
  | absent => exact headNot_nil _
  | marked hMark =>
    rw [headNot_cons_iff]
    rcases hMark with rfl | rfl <;> rfl

theorem headNot_isDigit {cs : List Char} (h : HeadNot isDigitOrPoint cs) :
    HeadNot Char.isDigit cs :=
  fun c hc => (Bool.or_eq_false_iff.mp (h c hc)).1

/-! ## Literals are read -/

theorem SpellsSign.unique {sign : List Char} {a b : Bool} (h : SpellsSign sign a)
    (h' : SpellsSign sign b) : a = b := by
  cases h <;> cases h' <;> rfl

theorem SpellsSign.splitSign_append {sign rest : List Char} {negative : Bool}
    (h : SpellsSign sign negative) (hRest : HeadNot isSign rest) :
    splitSign (sign ++ rest) = (negative, rest) := by
  cases h with
  | absent =>
    cases rest with
    | nil => rfl
    | cons c cs =>
      have hNot := headNot_cons_iff.mp hRest
      rw [isSign, Bool.or_eq_false_iff, beq_eq_false_iff_ne, beq_eq_false_iff_ne] at hNot
      rw [List.nil_append, splitSign]
      · exact fun _ he => hNot.2 (List.cons.inj he).1
      · exact fun _ he => hNot.1 (List.cons.inj he).1
  | plus => rfl
  | minus => rfl

theorem SpellsExponent.readExponent?_eq {cs : List Char} {e : Int} (h : SpellsExponent cs e) :
    readExponent? cs = some e := by
  cases h with
  | absent => rfl
  | @marked mark sign ds negative hMark hSign hne hDigits =>
    have hSplit : splitSign (sign ++ ds) = (negative, ds) := by
      refine hSign.splitSign_append ?_
      have hMantissa := (SpellsMantissa.plain hDigits hne).headNot_isSign []
      rwa [List.append_nil] at hMantissa
    have hSome : (mark == 'e' || mark == 'E') = true := by
      rcases hMark with rfl | rfl <;> rfl
    have hAll : ds.all Char.isDigit = true := List.all_eq_true.mpr hDigits
    rw [readExponent?, hSplit]
    simp only [hSome, List.isEmpty_eq_false_iff.mpr hne, hAll, Bool.not_false, Bool.and_true,
      if_true]

/-- Each side of the point is cut off as the grammar parts them. -/
theorem SpellsMantissa.scan {m whole fraction rest : List Char}
    (h : SpellsMantissa m whole fraction) (hRest : HeadNot isDigitOrPoint rest) :
    (m ++ rest).takeWhile Char.isDigit = whole ∧
      splitFraction ((m ++ rest).dropWhile Char.isDigit) = (fraction, rest) ∧
      whole ++ fraction ≠ [] := by
  have hDigit := headNot_isDigit hRest
  cases h with
  | plain hWhole hne =>
    have hPoint : splitFraction rest = ([], rest) := by
      cases rest with
      | nil => rfl
      | cons c cs =>
        have hNot := (Bool.or_eq_false_iff.mp (headNot_cons_iff.mp hRest)).2
        rw [splitFraction]
        exact fun _ he => beq_eq_false_iff_ne.mp hNot (List.cons.inj he).1
    rw [takeWhile_append_of_headNot hWhole hDigit, dropWhile_append_of_headNot hWhole hDigit,
      List.append_nil]
    exact ⟨rfl, hPoint, hne⟩
  | pointed hWhole hFraction hne =>
    have hPoint : HeadNot Char.isDigit ('.' :: fraction ++ rest) := headNot_cons_iff.mpr rfl
    rw [List.append_assoc, takeWhile_append_of_headNot hWhole hPoint,
      dropWhile_append_of_headNot hWhole hPoint, List.cons_append, splitFraction,
      takeWhile_append_of_headNot hFraction hDigit, dropWhile_append_of_headNot hFraction hDigit]
    exact ⟨rfl, rfl, hne⟩

/-- **Every literal is read**, as the number that it denotes. -/
theorem SpellsDecimal.exists_parse? {cs : List Char} {negative : Bool} {q : ℚ}
    (h : SpellsDecimal cs negative q) :
    ∃ l, Literal.parse? cs = some l ∧ l.negative = negative ∧ l.toRat = q := by
  obtain ⟨hSign, hMantissa, hExponent⟩ := h
  rename_i sign m whole fraction x e
  obtain ⟨hWhole, hFraction, hne⟩ := hMantissa.scan hExponent.headNot_isDigitOrPoint
  have hSome : ¬ (whole.isEmpty && fraction.isEmpty) = true := by
    rw [Bool.and_eq_true, List.isEmpty_iff, List.isEmpty_iff, ← List.append_eq_nil_iff]
    exact hne
  have hParse : Literal.parse? (sign ++ (m ++ x)) =
      some ⟨negative, readDigits (whole ++ fraction), e - fraction.length⟩ := by
    simp only [Literal.parse?, hSign.splitSign_append (hMantissa.headNot_isSign x), hWhole,
      hFraction, if_neg hSome, hExponent.readExponent?_eq, Option.bind_eq_bind, Option.bind_some]
  exact ⟨_, hParse, rfl, toRat_readDigits _ _ _ _⟩

/-! ## What is read is a literal -/

theorem exists_spellsSign (cs : List Char) :
    ∃ sign, SpellsSign sign (splitSign cs).1 ∧ cs = sign ++ (splitSign cs).2 := by
  unfold splitSign
  split
  · exact ⟨_, .minus, rfl⟩
  · exact ⟨_, .plus, rfl⟩
  · exact ⟨_, .absent, rfl⟩

theorem SpellsExponent.of_readExponent? {cs : List Char} {e : Int} (h : readExponent? cs = some e) :
    SpellsExponent cs e := by
  cases cs with
  | nil =>
    obtain rfl := Option.some.inj h
    exact .absent
  | cons c cs =>
    obtain ⟨sign, hSign, hcs⟩ := exists_spellsSign cs
    rw [readExponent?] at h
    generalize splitSign cs = parts at *
    obtain ⟨negative, ds⟩ := parts
    simp only [] at h hSign hcs
    split at h
    · rename_i hParts
      rw [Bool.and_eq_true, Bool.and_eq_true, Bool.or_eq_true, beq_iff_eq, beq_iff_eq,
        Bool.not_eq_true', List.isEmpty_eq_false_iff, List.all_eq_true] at hParts
      obtain rfl := Option.some.inj h
      rw [hcs]
      exact .marked hParts.1.1 hSign hParts.1.2 hParts.2
    · cases h

/-- What is cut off around the point is a mantissa, if there are any digits. -/
theorem exists_spellsMantissa {body fraction rest : List Char}
    (hSplit : splitFraction (body.dropWhile Char.isDigit) = (fraction, rest))
    (hne : body.takeWhile Char.isDigit ++ fraction ≠ []) :
    ∃ m, SpellsMantissa m (body.takeWhile Char.isDigit) fraction ∧ body = m ++ rest := by
  have hBody := List.takeWhile_append_dropWhile (p := Char.isDigit) (l := body)
  have hWhole : ∀ c ∈ body.takeWhile Char.isDigit, c.isDigit = true :=
    fun c hc => List.mem_takeWhile_imp hc
  generalize body.takeWhile Char.isDigit = whole at *
  generalize body.dropWhile Char.isDigit = tail at *
  unfold splitFraction at hSplit
  split at hSplit
  · rename_i cs
    obtain ⟨rfl, rfl⟩ := Prod.mk.inj hSplit
    refine ⟨_, .pointed hWhole (fun c hc => List.mem_takeWhile_imp hc) hne, ?_⟩
    rw [List.append_assoc, List.cons_append, List.takeWhile_append_dropWhile, hBody]
  · obtain ⟨rfl, rfl⟩ := Prod.mk.inj hSplit
    rw [List.append_nil] at hne
    exact ⟨_, .plain hWhole hne, hBody.symm⟩

/-- **Only literals are read.** -/
theorem SpellsDecimal.of_parse? {cs : List Char} {l : Literal} (h : Literal.parse? cs = some l) :
    SpellsDecimal cs l.negative l.toRat := by
  obtain ⟨sign, hSign, hcs⟩ := exists_spellsSign cs
  rw [Literal.parse?] at h
  generalize splitSign cs = parts at *
  obtain ⟨negative, body⟩ := parts
  simp only [] at h hSign hcs
  cases hSplit : splitFraction (body.dropWhile Char.isDigit) with
  | mk fraction rest =>
    rw [hSplit] at h
    simp only [] at h
    split at h
    · cases h
    · rename_i hSome
      have hne : body.takeWhile Char.isDigit ++ fraction ≠ [] := by
        rwa [Bool.and_eq_true, List.isEmpty_iff, List.isEmpty_iff,
          ← List.append_eq_nil_iff] at hSome
      obtain ⟨m, hMantissa, hBody⟩ := exists_spellsMantissa hSplit hne
      obtain ⟨e, he, hl⟩ := Option.bind_eq_some_iff.mp h
      obtain rfl := Option.some.inj hl
      have hLiteral := SpellsDecimal.intro hSign hMantissa (.of_readExponent? he)
      rwa [← hBody, ← hcs, ← toRat_readDigits negative] at hLiteral

/-- A text is a literal of one sign and one number at most. -/
theorem SpellsDecimal.unique {cs : List Char} {m n : Bool} {p q : ℚ} (h : SpellsDecimal cs m p)
    (h' : SpellsDecimal cs n q) : m = n ∧ p = q := by
  obtain ⟨l, hl, rfl, rfl⟩ := h.exists_parse?
  obtain ⟨l', hl', rfl, rfl⟩ := h'.exists_parse?
  obtain rfl := Option.some.inj (hl.symm.trans hl')
  exact ⟨rfl, rfl⟩

end Numeral.Decimal
