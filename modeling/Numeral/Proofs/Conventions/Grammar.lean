import Numeral.Proofs.Conventions.Scanning

/-!
# The grammar of numbers

A number is a sign, an affix, a body and another affix, with white space anywhere between them
(`Symbols.Spells`); the body is the infinity sign or digits, where single separators may stand
between runs of integer digits (`Grouped`).  The grammar does not say in which order its parts are
looked for, how far each of them reaches, or which of two ways to part a text is taken.

The reader takes parts one after the other, each as far as it goes, and never goes back
(`read?_eq_some_iff_parts`).  Each part that it takes follows the grammar, and so does every text
that it accepts (`Spells.of_read?`).
-/

namespace Numeral

open Text

/-- Nothing but white space. -/
def IsBlank (cs : List Char) : Prop := ∀ c ∈ cs, isWhiteSpace c = true

/-- The text, or nothing at all. -/
def IsOptional (t cs : List Char) : Prop := cs = [] ∨ cs = t

namespace Symbols

/-- The text stands for a number without its sign. -/
inductive IsBody (s : Symbols) : Body → List Char → Prop
  | infinity : s.infinity ≠ [] → IsBody s .infinity s.infinity
  | integer {text ds : List Char} : Grouped s.group text ds → IsBody s (.digits ds []) text
  | decimal {text ds fraction : List Char} : Grouped s.group text ds → IsRun fraction →
      IsBody s (.digits ds fraction) (text ++ s.decimal :: fraction)
  | fraction {fraction : List Char} : IsRun fraction →
      IsBody s (.digits [] fraction) (s.decimal :: fraction)

/-- The text is a minus sign if there is one, and empty if there is none. -/
inductive IsMinus (s : Symbols) : Bool → List Char → Prop
  | absent : IsMinus s false []
  | own : IsMinus s true s.minus
  | hyphen : IsMinus s true ['-']
  | sign : IsMinus s true ['\u2212']

/-- What stands before a body: an affix, and before or behind it a minus sign, but not on both
sides. -/
inductive IsFront (s : Symbols) : Bool → List Char → Prop
  | intro {before after : Bool} {w₀ m w₁ a w₂ m' w₃ : List Char}
      (hw₀ : IsBlank w₀) (hBefore : s.IsMinus before m) (hw₁ : IsBlank w₁)
      (hLeading : IsOptional s.leading a) (hw₂ : IsBlank w₂) (hAfter : s.IsMinus after m')
      (hw₃ : IsBlank w₃) (hOnce : before = false ∨ after = false) :
      IsFront s (before || after) (w₀ ++ (m ++ (w₁ ++ (a ++ (w₂ ++ (m' ++ w₃))))))

/-- What stands behind a body: an affix. -/
inductive IsBack (s : Symbols) : List Char → Prop
  | intro {w₄ b w₅ : List Char} (hw₄ : IsBlank w₄) (hTrailing : IsOptional s.trailing b)
      (hw₅ : IsBlank w₅) : IsBack s (w₄ ++ (b ++ w₅))

/-- The text can be parted so that it has this sign and stands for this number. -/
inductive Spells (s : Symbols) : List Char → Reading → Prop
  | intro {negative : Bool} {body : Body} {front text back : List Char}
      (hFront : s.IsFront negative front) (hBody : s.IsBody body text) (hBack : s.IsBack back) :
      Spells s (front ++ (text ++ back)) ⟨negative, body⟩

end Symbols

/-! ## The reader in three parts -/

/-- Takes an affix off the start of a text if it is there, and the white space around it. -/
def skipAffix (t cs : List Char) : List Char := trimLeft (skipText t (trimLeft cs))

namespace Symbols

/-- Takes a minus sign off the start of a text, unless there was one before. -/
def splitMinusUnless (s : Symbols) (before : Bool) (cs : List Char) : Bool × List Char :=
  if before then (false, cs) else s.splitMinus cs

/-- Takes what stands before a body off a text, and says whether there was a minus sign. -/
def splitFront (s : Symbols) (cs : List Char) : Bool × List Char :=
  let first := s.splitMinus (trimLeft cs)
  let second := s.splitMinusUnless first.1 (skipAffix s.leading first.2)
  (first.1 || second.1, trimLeft second.2)

/-- A text is read when its three parts are, and nothing is left. -/
theorem read?_eq_some_iff_parts {s : Symbols} {cs : List Char} {r : Reading} :
    s.read? cs = some r ↔
      ∃ rest, s.splitBody? (s.splitFront cs).2 = some (r.body, rest) ∧
        skipAffix s.trailing rest = [] ∧ (s.splitFront cs).1 = r.negative := by
  have hRead : s.read? cs = (s.splitBody? (s.splitFront cs).2).bind fun p =>
      if (skipAffix s.trailing p.2).isEmpty then some ⟨(s.splitFront cs).1, p.1⟩ else none := rfl
  rw [hRead]
  constructor
  · intro h
    obtain ⟨⟨body, rest⟩, hBody, hRest⟩ := Option.bind_eq_some_iff.mp h
    split at hRest
    · rename_i hEmpty
      obtain rfl := Option.some.inj hRest
      exact ⟨rest, hBody, List.isEmpty_iff.mp hEmpty, rfl⟩
    · cases hRest
  · rintro ⟨rest, hBody, hRest, hSign⟩
    rw [hBody, Option.bind_some, hRest, List.isEmpty_nil, if_pos rfl, hSign]

end Symbols

/-! ## What is accepted follows the grammar -/

theorem exists_isBlank (cs : List Char) : ∃ w, IsBlank w ∧ cs = w ++ trimLeft cs := by
  obtain ⟨w, hw, hBlank⟩ := exists_eq_trimLeft cs
  exact ⟨w, hBlank, hw⟩

theorem exists_isOptional (t cs : List Char) : ∃ a, IsOptional t a ∧ cs = a ++ skipText t cs := by
  rw [skipText]
  cases h : afterText? t cs with
  | none => exact ⟨[], Or.inl rfl, rfl⟩
  | some rest => exact ⟨t, Or.inr rfl, afterText?_eq_some_iff.mp h⟩

theorem isRun_takeWhile {cs : List Char} (h : (cs.takeWhile Char.isDigit).isEmpty = false) :
    IsRun (cs.takeWhile Char.isDigit) :=
  ⟨List.isEmpty_eq_false_iff.mp h, fun _ hc => List.mem_takeWhile_imp hc⟩

/-- A run of digits goes on with the groups behind it. -/
theorem Grouped.of_splitGroups (separator : Char) (cs : List Char) {ds : List Char} (h : IsRun ds) :
    ∃ text, Grouped separator (ds ++ text) (ds ++ (splitGroups separator cs).1) ∧
      cs = text ++ (splitGroups separator cs).2 := by
  fun_induction splitGroups separator cs generalizing ds with
  | case1 =>
    refine ⟨[], ?_, rfl⟩
    rw [List.append_nil]
    exact .run h
  | case2 c rest hGroup ds' rest' hSplit ih =>
    -- the run behind the separator goes on in turn
    have hRun := isRun_takeWhile hGroup.2
    obtain ⟨text, hText, hRest⟩ := ih hRun
    rw [hSplit] at hText hRest
    refine ⟨separator :: (rest.takeWhile Char.isDigit ++ text), .group h hText, ?_⟩
    rw [hGroup.1, List.cons_append, List.append_assoc, ← hRest, List.takeWhile_append_dropWhile]
  | case3 c rest hGroup =>
    refine ⟨[], ?_, rfl⟩
    rw [List.append_nil]
    exact .run h

theorem exists_skipAffix (t cs : List Char) :
    ∃ w a w', IsBlank w ∧ IsOptional t a ∧ IsBlank w' ∧
      cs = w ++ (a ++ (w' ++ skipAffix t cs)) := by
  obtain ⟨w, hw, h⟩ := exists_isBlank cs
  obtain ⟨a, ha, hText⟩ := exists_isOptional t (trimLeft cs)
  obtain ⟨w', hw', h'⟩ := exists_isBlank (skipText t (trimLeft cs))
  refine ⟨w, a, w', hw, ha, hw', ?_⟩
  rw [skipAffix, ← h', ← hText, ← h]

namespace Symbols

theorem exists_isMinus (s : Symbols) (cs : List Char) :
    ∃ m, s.IsMinus (s.splitMinus cs).1 m ∧ cs = m ++ (s.splitMinus cs).2 := by
  rw [splitMinus]
  split
  · rename_i rest h
    rw [Option.or_eq_some_iff, Option.or_eq_some_iff] at h
    obtain (h | ⟨-, h⟩) | ⟨-, h⟩ := h
    · exact ⟨_, .own, afterText?_eq_some_iff.mp h⟩
    · exact ⟨_, .hyphen, afterText?_eq_some_iff.mp h⟩
    · exact ⟨_, .sign, afterText?_eq_some_iff.mp h⟩
  · exact ⟨[], .absent, rfl⟩

theorem exists_isMinus_unless (s : Symbols) (before : Bool) (cs : List Char) :
    ∃ m, s.IsMinus (s.splitMinusUnless before cs).1 m ∧ cs = m ++ (s.splitMinusUnless before cs).2 ∧
      (before = false ∨ (s.splitMinusUnless before cs).1 = false) := by
  cases before with
  | false =>
    obtain ⟨m, hm, h⟩ := s.exists_isMinus cs
    exact ⟨m, hm, h, Or.inl rfl⟩
  | true => exact ⟨[], .absent, rfl, Or.inr rfl⟩

theorem exists_isFront (s : Symbols) (cs : List Char) :
    ∃ front, s.IsFront (s.splitFront cs).1 front ∧ cs = front ++ (s.splitFront cs).2 := by
  obtain ⟨w₀, hw₀, h₀⟩ := exists_isBlank cs
  obtain ⟨m, hBefore, hm⟩ := s.exists_isMinus (trimLeft cs)
  rw [splitFront]
  generalize s.splitMinus (trimLeft cs) = first at *
  obtain ⟨w₁, a, w₂, hw₁, hLeading, hw₂, ha⟩ := exists_skipAffix s.leading first.2
  obtain ⟨m', hAfter, hm', hOnce⟩ :=
    s.exists_isMinus_unless first.1 (skipAffix s.leading first.2)
  generalize s.splitMinusUnless first.1 (skipAffix s.leading first.2) = second at *
  obtain ⟨w₃, hw₃, h₃⟩ := exists_isBlank second.2
  refine ⟨w₀ ++ (m ++ (w₁ ++ (a ++ (w₂ ++ (m' ++ w₃))))), ?_, ?_⟩
  · exact .intro hw₀ hBefore hw₁ hLeading hw₂ hAfter hw₃ hOnce
  · simp only [List.append_assoc]
    rw [← h₃, ← hm', ← ha, ← hm, ← h₀]

theorem splitInteger_cases (s : Symbols) (cs : List Char) :
    ((s.splitInteger cs).1 = [] ∧ cs = (s.splitInteger cs).2) ∨
      ∃ text, Grouped s.group text (s.splitInteger cs).1 ∧ cs = text ++ (s.splitInteger cs).2 := by
  rw [splitInteger]
  dsimp only
  split
  · exact Or.inl ⟨rfl, rfl⟩
  · rename_i hEmpty
    obtain ⟨text, hText, hRest⟩ := Grouped.of_splitGroups s.group (cs.dropWhile Char.isDigit)
      (isRun_takeWhile (Bool.eq_false_iff.mpr hEmpty))
    refine Or.inr ⟨_, hText, ?_⟩
    rw [List.append_assoc, ← hRest, List.takeWhile_append_dropWhile]

theorem splitFraction_cases (s : Symbols) (cs : List Char) :
    ((s.splitFraction cs).1 = [] ∧ cs = (s.splitFraction cs).2) ∨
      IsRun (s.splitFraction cs).1 ∧
        cs = s.decimal :: ((s.splitFraction cs).1 ++ (s.splitFraction cs).2) := by
  cases cs with
  | nil => exact Or.inl ⟨rfl, rfl⟩
  | cons c cs =>
    rw [splitFraction]
    dsimp only
    split
    · rename_i hDecimal
      split
      · exact Or.inl ⟨rfl, rfl⟩
      · rename_i hEmpty
        refine Or.inr ⟨isRun_takeWhile (Bool.eq_false_iff.mpr hEmpty), ?_⟩
        rw [hDecimal, List.takeWhile_append_dropWhile]
    · exact Or.inl ⟨rfl, rfl⟩

theorem exists_isBody (s : Symbols) {cs rest : List Char} {body : Body}
    (h : s.splitBody? cs = some (body, rest)) : ∃ text, s.IsBody body text ∧ cs = text ++ rest := by
  rw [splitBody?] at h
  split at h
  · rename_i rest' hInfinity
    obtain ⟨rfl, rfl⟩ := Prod.mk.inj (Option.some.inj h)
    split at hInfinity
    · cases hInfinity
    · rename_i hEmpty
      exact ⟨_, .infinity fun he => hEmpty (List.isEmpty_iff.mpr he),
        afterText?_eq_some_iff.mp hInfinity⟩
  · have hInteger := s.splitInteger_cases cs
    generalize s.splitInteger cs = p at h hInteger
    obtain ⟨integer, cs'⟩ := p
    have hFraction := s.splitFraction_cases cs'
    dsimp only at h hInteger
    generalize s.splitFraction cs' = q at h hFraction
    obtain ⟨fraction, rest'⟩ := q
    dsimp only at h hFraction
    split at h
    · cases h
    · rename_i hSome
      obtain ⟨rfl, rfl⟩ := Prod.mk.inj (Option.some.inj h)
      obtain ⟨rfl, rfl⟩ | ⟨text, hText, rfl⟩ := hInteger
      · obtain ⟨rfl, -⟩ | ⟨hRun, rfl⟩ := hFraction
        · exact absurd rfl hSome
        · exact ⟨_, .fraction hRun, rfl⟩
      · obtain ⟨rfl, rfl⟩ | ⟨hRun, rfl⟩ := hFraction
        · exact ⟨text, .integer hText, rfl⟩
        · exact ⟨_, .decimal hText hRun, by rw [List.append_assoc, List.cons_append]⟩

/-- **What is accepted follows the grammar.** -/
theorem Spells.of_read? {s : Symbols} {cs : List Char} {r : Reading} (h : s.read? cs = some r) :
    s.Spells cs r := by
  obtain ⟨negative, body⟩ := r
  obtain ⟨rest, hBody, hRest, hSign⟩ := read?_eq_some_iff_parts.mp h
  obtain ⟨front, hFront, hcs⟩ := s.exists_isFront cs
  obtain ⟨text, hText, hBodyText⟩ := s.exists_isBody hBody
  obtain ⟨w₄, b, w₅, hw₄, hTrailing, hw₅, hBack⟩ := exists_skipAffix s.trailing rest
  rw [hRest, List.append_nil] at hBack
  rw [hSign] at hFront
  rw [hBodyText, hBack] at hcs
  rw [hcs]
  exact .intro hFront hText (.intro hw₄ hTrailing hw₅)

end Symbols

end Numeral
