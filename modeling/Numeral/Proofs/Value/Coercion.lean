import Mathlib.Data.List.Induction
import Numeral.Proofs.Binary64.Decimal
import Numeral.Proofs.Decimal.Grammar
import Numeral.Value.Coercion

/-!
# The numbers of texts

A text denotes a number in the usual way if it is empty, an infinity with an optional sign, an
integer in base two, eight or sixteen behind its mark, or a decimal literal (`Denotes`).  Every
other text is not a number (`IsNumberOf`).

Texts are read like this but for two kinds of integers behind the mark of a base (`Misread`): one
with a plus sign is read, and one that does not fit into 64 bits is not a number
(`toNumber?_string`).
-/

namespace Numeral

open Decimal (SpellsSign SpellsDecimal Literal)
open Text (isRadixDigit radixDigit? readRadixDigits)

/-! ## Digits in a base -/

/-- The text is digits in a base, and they denote this number. -/
inductive SpellsInBase (base : Nat) : List Char → Nat → Prop
  | digit {c : Char} {d : Nat} (hDigit : radixDigit? base c = some d) : SpellsInBase base [c] d
  | append {cs : List Char} {c : Char} {n d : Nat} (hDigits : SpellsInBase base cs n)
      (hDigit : radixDigit? base c = some d) : SpellsInBase base (cs ++ [c]) (base * n + d)

variable {base n : Nat} {c : Char} {cs ds : List Char} {x y : Binary64}

theorem readRadixDigits_concat {d : Nat} (hDigit : radixDigit? base c = some d) (cs : List Char) :
    readRadixDigits base (cs ++ [c]) = base * readRadixDigits base cs + d := by
  rw [readRadixDigits, List.filterMap_append, List.filterMap_cons_some hDigit, List.filterMap_nil,
    List.foldl_concat, readRadixDigits]

theorem spellsInBase_iff :
    SpellsInBase base cs n ↔
      cs ≠ [] ∧ (∀ c ∈ cs, isRadixDigit base c = true) ∧ readRadixDigits base cs = n := by
  constructor
  · intro h
    induction h with
    | @digit c d hDigit =>
      have hRead := readRadixDigits_concat hDigit []
      refine ⟨List.cons_ne_nil _ _, ?_, by simpa [readRadixDigits] using hRead⟩
      intro e he
      rw [List.mem_singleton.mp he, isRadixDigit, hDigit, Option.isSome_some]
    | @append cs c n d _ hDigit ih =>
      obtain ⟨-, hAll, hRead⟩ := ih
      refine ⟨by simp, ?_, by rw [readRadixDigits_concat hDigit, hRead]⟩
      intro e he
      rcases List.mem_append.mp he with he | he
      · exact hAll e he
      · rw [List.mem_singleton.mp he, isRadixDigit, hDigit, Option.isSome_some]
  · rintro ⟨hne, hAll, rfl⟩
    induction cs using List.reverseRecOn with
    | nil => exact absurd rfl hne
    | append_singleton cs c ih =>
      obtain ⟨hcs, hc⟩ := List.forall_mem_append.mp hAll
      obtain ⟨d, hDigit⟩ := Option.isSome_iff_exists.mp (hc c List.mem_cons_self)
      rw [readRadixDigits_concat hDigit]
      by_cases hNil : cs = []
      · subst hNil
        have hSingle : base * readRadixDigits base [] + d = d := by simp [readRadixDigits]
        rw [hSingle]
        exact .digit hDigit
      · exact .append (ih hNil hcs) hDigit

theorem SpellsInBase.unique {m : Nat} (h : SpellsInBase base cs m) (h' : SpellsInBase base cs n) :
    m = n :=
  (spellsInBase_iff.mp h).2.2.symm.trans (spellsInBase_iff.mp h').2.2

/-- A plus sign is not a digit. -/
theorem not_spellsInBase_plus : ¬ SpellsInBase base ('+' :: ds) n := by
  intro h
  have hPlus := (spellsInBase_iff.mp h).2.1 '+' List.mem_cons_self
  have hNone : radixDigit? base '+' = none := if_neg (Nat.lt_irrefl base)
  rw [isRadixDigit, hNone] at hPlus
  cases hPlus

/-- Integers in a base are read with and without a plus sign, as far as they fit into 64 bits. -/
theorem readRadix?_eq_some_iff :
    readRadix? base cs = some n ↔
      (SpellsInBase base cs n ∨ ∃ ds, cs = '+' :: ds ∧ SpellsInBase base ds n) ∧ n < pow2 64 := by
  have hPlain : ∀ ds : List Char,
      (if !ds.isEmpty && ds.all (isRadixDigit base) && readRadixDigits base ds < pow2 64
        then some (readRadixDigits base ds) else none) = some n ↔
      SpellsInBase base ds n ∧ n < pow2 64 := by
    intro ds
    rw [spellsInBase_iff, Option.ite_none_right_eq_some, Option.some.injEq, Bool.and_eq_true,
      Bool.and_eq_true, Bool.not_eq_true', List.isEmpty_eq_false_iff, List.all_eq_true,
      decide_eq_true_eq]
    constructor
    · rintro ⟨⟨⟨hne, hAll⟩, hLess⟩, rfl⟩
      exact ⟨⟨hne, hAll, rfl⟩, hLess⟩
    · rintro ⟨⟨hne, hAll, rfl⟩, hLess⟩
      exact ⟨⟨⟨hne, hAll⟩, hLess⟩, rfl⟩
  by_cases hPlus : ∃ ds, cs = '+' :: ds
  · obtain ⟨ds, rfl⟩ := hPlus
    refine (hPlain ds).trans (and_congr_left' ⟨fun h => Or.inr ⟨ds, rfl, h⟩, ?_⟩)
    rintro (h | ⟨ds', hds, h⟩)
    · exact absurd h not_spellsInBase_plus
    · rwa [(List.cons.inj hds).2]
  · have hNoPlus : ∀ ds, cs ≠ '+' :: ds := fun ds hds => hPlus ⟨ds, hds⟩
    rw [readRadix?]
    · refine (hPlain cs).trans (and_congr_left' ⟨Or.inl, ?_⟩)
      rintro (h | ⟨ds, hds, -⟩)
      · exact h
      · exact absurd hds (hNoPlus ds)
    · exact hNoPlus

/-- More than 64 bits are not read. -/
theorem SpellsInBase.readRadix?_eq_none (h : SpellsInBase base ds n) (hn : pow2 64 ≤ n) :
    readRadix? base ds = none := by
  refine Option.eq_none_iff_forall_ne_some.mpr fun m hm => ?_
  obtain ⟨hPlain | ⟨ds', rfl, -⟩, hLess⟩ := readRadix?_eq_some_iff.mp hm
  · rw [hPlain.unique h] at hLess
    omega
  · exact not_spellsInBase_plus h

/-! ## What texts denote -/

/-- The text, without white space around it, denotes this number in the usual way. -/
inductive Denotes : List Char → Binary64 → Prop
  | empty : Denotes [] .zero
  | infinity {sign : List Char} {negative : Bool} (hSign : SpellsSign sign negative) :
      Denotes (sign ++ "Infinity".toList) (.infinity negative)
  | integer {mark : Char} {base n : Nat} {ds : List Char} {x : Binary64}
      (hMark : radixOf? mark = some base) (hDigits : SpellsInBase base ds n)
      (hx : x.IsNearest false n) : Denotes ('0' :: mark :: ds) x
  | decimal {cs : List Char} {negative : Bool} {q : ℚ} {x : Binary64}
      (hDecimal : SpellsDecimal cs negative q) (hx : x.IsNearest negative q) : Denotes cs x

/-- The double is the number of the text: the one that it denotes, or not a number if it denotes
none. -/
def IsNumberOf (cs : List Char) (x : Binary64) : Prop :=
  (∀ y, Denotes cs y ↔ y = x) ∨ x = .nan ∧ ∀ y, ¬ Denotes cs y

/-- The text is read as this double, which is not its number.  It is an integer behind the mark of
its base, and has a plus sign or more than 64 bits. -/
inductive Misread : List Char → Binary64 → Prop
  | plus {mark : Char} {base n : Nat} {ds : List Char} {x : Binary64}
      (hMark : radixOf? mark = some base) (hDigits : SpellsInBase base ds n) (hn : n < pow2 64)
      (hx : x.IsNearest false n) : Misread ('0' :: mark :: '+' :: ds) x
  | wide {mark : Char} {base n : Nat} {ds : List Char} (hMark : radixOf? mark = some base)
      (hDigits : SpellsInBase base ds n) (hn : pow2 64 ≤ n) : Misread ('0' :: mark :: ds) .nan

/-! ## No text is of two kinds -/

theorem mark_cases {mark : Char} (h : radixOf? mark = some base) :
    mark ∈ ['x', 'X', 'o', 'O', 'b', 'B'] := by
  by_contra hNone
  simp only [List.mem_cons, List.not_mem_nil, or_false, not_or] at hNone
  simp [radixOf?, hNone] at h

theorem sign_infinity_ne_nil (sign : List Char) : sign ++ "Infinity".toList ≠ [] := by
  intro h
  exact absurd (List.append_eq_nil_iff.mp h).2 (by decide)

theorem sign_infinity_ne_marked {sign : List Char} {negative : Bool}
    (hSign : SpellsSign sign negative) (mark : Char) (ds : List Char) :
    sign ++ "Infinity".toList ≠ '0' :: mark :: ds := by
  intro h
  cases hSign <;> exact absurd (List.cons.inj h).1 (by decide)

theorem parse?_sign_infinity {sign : List Char} {negative : Bool}
    (hSign : SpellsSign sign negative) :
    Literal.parse? (sign ++ "Infinity".toList) = none := by
  cases hSign <;> decide

/-- The mark of a base is not a part of a decimal literal. -/
theorem parse?_marked {mark : Char} (hMark : radixOf? mark = some base) (ds : List Char) :
    Literal.parse? ('0' :: mark :: ds) = none := by
  have h := mark_cases hMark
  simp only [List.mem_cons, List.not_mem_nil, or_false] at h
  rcases h with rfl | rfl | rfl | rfl | rfl | rfl <;> rfl

theorem isNearest_ofLiteral (l : Literal) : (Binary64.ofLiteral l).IsNearest l.negative l.toRat :=
  Binary64.isNearest_ofDecimal l.negative l.coefficient l.exponent

theorem denotes_iff :
    Denotes cs x ↔
      cs = [] ∧ x = .zero ∨
      (∃ sign negative, SpellsSign sign negative ∧ cs = sign ++ "Infinity".toList ∧
        x = .infinity negative) ∨
      (∃ mark base ds n, radixOf? mark = some base ∧ cs = '0' :: mark :: ds ∧
        SpellsInBase base ds n ∧ x = .ofNat n) ∨
      ∃ l, Literal.parse? cs = some l ∧ x = .ofLiteral l := by
  constructor
  · rintro (_ | hSign | ⟨hMark, hDigits, hx⟩ | ⟨hDecimal, hx⟩)
    · exact Or.inl ⟨rfl, rfl⟩
    · exact Or.inr (Or.inl ⟨_, _, hSign, rfl, rfl⟩)
    · exact Or.inr (Or.inr (Or.inl ⟨_, _, _, _, hMark, rfl, hDigits,
        hx.unique (Binary64.isNearest_ofNat _)⟩))
    · obtain ⟨l, hl, rfl, rfl⟩ := hDecimal.exists_parse?
      exact Or.inr (Or.inr (Or.inr ⟨l, hl, hx.unique (isNearest_ofLiteral l)⟩))
  · rintro (⟨rfl, rfl⟩ | ⟨sign, negative, hSign, rfl, rfl⟩ |
      ⟨mark, base, ds, n, hMark, rfl, hDigits, rfl⟩ | ⟨l, hl, rfl⟩)
    · exact .empty
    · exact .infinity hSign
    · exact .integer hMark hDigits (Binary64.isNearest_ofNat n)
    · exact .decimal (.of_parse? hl) (isNearest_ofLiteral l)

theorem denotes_nil_iff : Denotes [] x ↔ x = .zero := by
  rw [denotes_iff]
  constructor
  · rintro (⟨-, hx⟩ | ⟨sign, negative, -, h, -⟩ | ⟨mark, base, ds, n, -, h, -⟩ | ⟨l, hl, -⟩)
    · exact hx
    · exact absurd h.symm (sign_infinity_ne_nil sign)
    · cases h
    · cases hl
  · exact fun hx => Or.inl ⟨rfl, hx⟩

theorem denotes_infinity_iff {sign : List Char} {negative : Bool}
    (hSign : SpellsSign sign negative) :
    Denotes (sign ++ "Infinity".toList) x ↔ x = .infinity negative := by
  rw [denotes_iff]
  constructor
  · rintro (⟨h, -⟩ | ⟨sign', negative', hSign', h, rfl⟩ | ⟨mark, base, ds, n, -, h, -⟩ | ⟨l, hl, -⟩)
    · exact absurd h (sign_infinity_ne_nil sign)
    · obtain rfl := List.append_cancel_right h
      rw [hSign.unique hSign']
    · exact absurd h (sign_infinity_ne_marked hSign mark ds)
    · rw [parse?_sign_infinity hSign] at hl
      cases hl
  · exact fun hx => Or.inr (Or.inl ⟨_, _, hSign, rfl, hx⟩)

theorem denotes_marked_iff {mark : Char} (hMark : radixOf? mark = some base) :
    Denotes ('0' :: mark :: ds) x ↔ ∃ n, SpellsInBase base ds n ∧ x = .ofNat n := by
  rw [denotes_iff]
  constructor
  · rintro (⟨h, -⟩ | ⟨sign, negative, hSign, h, -⟩ |
      ⟨mark', base', ds', n, hMark', h, hDigits, hx⟩ | ⟨l, hl, -⟩)
    · cases h
    · exact absurd h.symm (sign_infinity_ne_marked hSign mark ds)
    · cases h
      rw [hMark] at hMark'
      cases hMark'
      exact ⟨n, hDigits, hx⟩
    · rw [parse?_marked hMark] at hl
      cases hl
  · rintro ⟨n, hDigits, hx⟩
    exact Or.inr (Or.inr (Or.inl ⟨mark, base, ds, n, hMark, rfl, hDigits, hx⟩))

/-- The text is not empty, not an infinity and has no mark of a base at its start. -/
structure IsPlain (cs : List Char) : Prop where
  ne_nil : cs ≠ []
  ne_infinity : ∀ sign negative, SpellsSign sign negative → cs ≠ sign ++ "Infinity".toList
  ne_marked : ∀ mark base ds, radixOf? mark = some base → cs ≠ '0' :: mark :: ds

theorem IsPlain.denotes_iff (h : IsPlain cs) :
    Denotes cs x ↔ ∃ l, Literal.parse? cs = some l ∧ x = .ofLiteral l := by
  rw [Numeral.denotes_iff]
  constructor
  · rintro (⟨hNil, -⟩ | ⟨sign, negative, hSign, hcs, -⟩ | ⟨mark, base, ds, n, hMark, hcs, -⟩ | hl)
    · exact absurd hNil h.ne_nil
    · exact absurd hcs (h.ne_infinity sign negative hSign)
    · exact absurd hcs (h.ne_marked mark base ds hMark)
    · exact hl
  · exact fun hl => Or.inr (Or.inr (Or.inr hl))

/-- Every text is of one of four kinds. -/
theorem text_cases (cs : List Char) :
    cs = [] ∨ (∃ sign negative, SpellsSign sign negative ∧ cs = sign ++ "Infinity".toList) ∨
      (∃ mark base ds, radixOf? mark = some base ∧ cs = '0' :: mark :: ds) ∨ IsPlain cs := by
  by_cases hNil : cs = []
  · exact Or.inl hNil
  by_cases hInfinity : ∃ sign negative, SpellsSign sign negative ∧ cs = sign ++ "Infinity".toList
  · exact Or.inr (Or.inl hInfinity)
  by_cases hMarked : ∃ mark base ds, radixOf? mark = some base ∧ cs = '0' :: mark :: ds
  · exact Or.inr (Or.inr (Or.inl hMarked))
  exact Or.inr (Or.inr (Or.inr ⟨hNil,
    fun sign negative hSign hcs => hInfinity ⟨sign, negative, hSign, hcs⟩,
    fun mark base ds hMark hcs => hMarked ⟨mark, base, ds, hMark, hcs⟩⟩))

/-! ## How texts are read -/

theorem readNumeral_infinity {sign : List Char} {negative : Bool}
    (hSign : SpellsSign sign negative) :
    readNumeral (sign ++ "Infinity".toList) = .infinity negative := by
  cases hSign <;> rfl

theorem readNumeral_marked {mark : Char} (hMark : radixOf? mark = some base) (ds : List Char) :
    readNumeral ('0' :: mark :: ds) = (readRadix? base ds).elim .nan .ofNat := by
  have hPositive :
      ¬ ('0' :: mark :: ds = "Infinity".toList ∨ '0' :: mark :: ds = "+Infinity".toList) := by
    rintro (h | h)
    · exact sign_infinity_ne_marked .absent mark ds h.symm
    · exact sign_infinity_ne_marked .plus mark ds h.symm
  have hNegative : '0' :: mark :: ds ≠ "-Infinity".toList :=
    (sign_infinity_ne_marked .minus mark ds).symm
  simp only [readNumeral, List.cons_ne_nil, if_false, if_neg hPositive, if_neg hNegative, hMark]

theorem IsPlain.readNumeral_eq (h : IsPlain cs) :
    readNumeral cs = (Literal.parse? cs).elim .nan .ofLiteral := by
  have hPositive : ¬ (cs = "Infinity".toList ∨ cs = "+Infinity".toList) := by
    rintro (hcs | hcs)
    · exact h.ne_infinity _ _ .absent hcs
    · exact h.ne_infinity _ _ .plus hcs
  have hNegative : cs ≠ "-Infinity".toList := h.ne_infinity _ _ .minus
  rw [readNumeral, if_neg h.ne_nil, if_neg hPositive, if_neg hNegative]
  split
  · rename_i mark ds
    have hNone : radixOf? mark = none :=
      Option.eq_none_iff_forall_ne_some.mpr fun base hMark => h.ne_marked mark base ds hMark rfl
    rw [hNone]
  · rfl

/-! ## Reading follows the grammar -/

/-- Only an integer behind a mark is misread. -/
theorem misread_iff :
    Misread cs y ↔ ∃ mark base ds, radixOf? mark = some base ∧ cs = '0' :: mark :: ds ∧
      ((∃ ds' n, ds = '+' :: ds' ∧ SpellsInBase base ds' n ∧ n < pow2 64 ∧ y = .ofNat n) ∨
        ∃ n, SpellsInBase base ds n ∧ pow2 64 ≤ n ∧ y = .nan) := by
  constructor
  · rintro (⟨hMark, hDigits, hn, hy⟩ | ⟨hMark, hDigits, hn⟩)
    · have hEq := hy.unique (Binary64.isNearest_ofNat _)
      exact ⟨_, _, _, hMark, rfl, Or.inl ⟨_, _, rfl, hDigits, hn, hEq⟩⟩
    · exact ⟨_, _, _, hMark, rfl, Or.inr ⟨_, hDigits, hn, rfl⟩⟩
  · rintro ⟨mark, base, ds, hMark, rfl, ⟨ds', n, rfl, hDigits, hn, rfl⟩ | ⟨n, hDigits, hn, rfl⟩⟩
    · exact .plus hMark hDigits hn (Binary64.isNearest_ofNat n)
    · exact .wide hMark hDigits hn

theorem ofNat_ne_nan (n : Nat) : Binary64.ofNat n ≠ .nan :=
  fun h => (Binary64.ofNat_eq_iff.mp h).elim

/-- What is misread is not the number of its text. -/
theorem not_isNumberOf_of_misread (h : Misread cs x) : ¬ IsNumberOf cs x := by
  obtain ⟨mark, base, ds, hMark, rfl, ⟨ds', n, rfl, hDigits, hn, rfl⟩ | ⟨n, hDigits, hn, rfl⟩⟩ :=
    misread_iff.mp h
  · rintro (hAll | ⟨hNaN, -⟩)
    · obtain ⟨m, hPlus, -⟩ := (denotes_marked_iff hMark).mp ((hAll _).mpr rfl)
      exact not_spellsInBase_plus hPlus
    · exact ofNat_ne_nan n hNaN
  · rintro (hAll | ⟨-, hNone⟩)
    · exact ofNat_ne_nan n ((hAll _).mp ((denotes_marked_iff hMark).mpr ⟨n, hDigits, rfl⟩))
    · exact hNone _ ((denotes_marked_iff hMark).mpr ⟨n, hDigits, rfl⟩)

/-- An integer behind a mark is misread, or read as its number. -/
theorem readRadix?_isNumberOf_or_misread {mark : Char} (hMark : radixOf? mark = some base)
    (ds : List Char) :
    IsNumberOf ('0' :: mark :: ds) ((readRadix? base ds).elim .nan .ofNat) ∨
      Misread ('0' :: mark :: ds) ((readRadix? base ds).elim .nan .ofNat) := by
  by_cases hDigits : ∃ n, SpellsInBase base ds n
  · obtain ⟨n, hDigits⟩ := hDigits
    by_cases hn : n < pow2 64
    · left
      rw [readRadix?_eq_some_iff.mpr ⟨Or.inl hDigits, hn⟩]
      refine Or.inl fun y => (denotes_marked_iff hMark).trans ⟨?_, fun hy => ⟨n, hDigits, hy⟩⟩
      rintro ⟨m, hm, rfl⟩
      rw [hm.unique hDigits]
      rfl
    · right
      rw [hDigits.readRadix?_eq_none (Nat.le_of_not_lt hn)]
      exact .wide hMark hDigits (Nat.le_of_not_lt hn)
  · have hNone : ∀ y, ¬ Denotes ('0' :: mark :: ds) y := by
      intro y hy
      obtain ⟨n, hn, -⟩ := (denotes_marked_iff hMark).mp hy
      exact hDigits ⟨n, hn⟩
    cases hRead : readRadix? base ds with
    | none => exact Or.inl (Or.inr ⟨rfl, hNone⟩)
    | some n =>
      obtain ⟨hPlain | ⟨ds', rfl, hPlus⟩, hn⟩ := readRadix?_eq_some_iff.mp hRead
      · exact absurd ⟨n, hPlain⟩ hDigits
      · exact Or.inr (.plus hMark hPlus hn (Binary64.isNearest_ofNat n))

/-- A text is misread, or read as its number. -/
theorem readNumeral_isNumberOf_or_misread (cs : List Char) :
    IsNumberOf cs (readNumeral cs) ∨ Misread cs (readNumeral cs) := by
  rcases text_cases cs with
    rfl | ⟨sign, negative, hSign, rfl⟩ | ⟨mark, base, ds, hMark, rfl⟩ | hPlain
  · exact Or.inl (Or.inl fun y => denotes_nil_iff)
  · rw [readNumeral_infinity hSign]
    exact Or.inl (Or.inl fun y => denotes_infinity_iff hSign)
  · rw [readNumeral_marked hMark]
    exact readRadix?_isNumberOf_or_misread hMark ds
  · left
    rw [hPlain.readNumeral_eq]
    cases hParse : Literal.parse? cs with
    | none =>
      refine Or.inr ⟨rfl, fun y hy => ?_⟩
      obtain ⟨l, hl, -⟩ := hPlain.denotes_iff.mp hy
      rw [hParse] at hl
      cases hl
    | some l =>
      refine Or.inl fun y => hPlain.denotes_iff.trans ⟨?_, fun hy => ⟨l, hParse, hy⟩⟩
      rintro ⟨l', hl', rfl⟩
      rw [hParse] at hl'
      cases hl'
      rfl

/-- What is misread is read so. -/
theorem Misread.readNumeral_eq (h : Misread cs x) : readNumeral cs = x := by
  cases h with
  | plus hMark hDigits hn hx =>
    rw [readNumeral_marked hMark, readRadix?_eq_some_iff.mpr ⟨Or.inr ⟨_, rfl, hDigits⟩, hn⟩]
    exact Binary64.ofNat_eq_iff.mpr hx
  | wide hMark hDigits hn =>
    rw [readNumeral_marked hMark, hDigits.readRadix?_eq_none hn]
    rfl

namespace Value

/-- **A text is read as its number**, between its white space and whatever the text is: as the
double that it denotes, or as not a number if it denotes none.  The only texts that are read
otherwise are integers behind the mark of a base: with a plus sign they are read as if it were not
there, and with more than 64 bits they are not a number. -/
theorem toNumber?_string (s : String) :
    ∃ x, (string s).toNumber? = some x ∧
      (IsNumberOf (Text.trim s.toList) x ↔ ∀ y, ¬ Misread (Text.trim s.toList) y) ∧
      ∀ y, Misread (Text.trim s.toList) y → x = y := by
  have hRead := readNumeral_isNumberOf_or_misread (Text.trim s.toList)
  refine ⟨_, rfl, ⟨fun hNumber y hy => ?_, fun hNone => hRead.resolve_right (hNone _)⟩,
    fun y hy => hy.readNumeral_eq⟩
  rw [hy.readNumeral_eq] at hNumber
  exact not_isNumberOf_of_misread hy hNumber

/-- A plus sign behind the mark is passed over, and the power of two behind the greatest integer of
64 bits is not a number. -/
theorem toNumber?_not_isNumberOf :
    (∃ x, (string "0x+1F").toNumber? = some x ∧ x = .ofNat 31 ∧
        ¬ IsNumberOf (Text.trim "0x+1F".toList) x) ∧
      ∃ x, (string "0x10000000000000000").toNumber? = some x ∧ x = .nan ∧
        ¬ IsNumberOf (Text.trim "0x10000000000000000".toList) x := by
  have hDigits : SpellsInBase 16 ['1', 'F'] 31 := spellsInBase_iff.mpr (by decide)
  have hPlus : Misread "0x+1F".toList (.ofNat 31) :=
    .plus rfl hDigits (by decide) (Binary64.isNearest_ofNat 31)
  have hWide : Misread "0x10000000000000000".toList .nan :=
    .wide rfl (spellsInBase_iff.mpr ⟨by decide, by decide, rfl⟩) (by decide)
  have hTrim : Text.trim "0x+1F".toList = "0x+1F".toList := by decide
  have hTrim' : Text.trim "0x10000000000000000".toList = "0x10000000000000000".toList := by decide
  constructor
  · refine ⟨_, rfl, ?_, ?_⟩
    · rw [hTrim, hPlus.readNumeral_eq]
    · rw [hTrim, hPlus.readNumeral_eq]
      exact not_isNumberOf_of_misread hPlus
  · refine ⟨_, rfl, ?_, ?_⟩
    · rw [hTrim', hWide.readNumeral_eq]
    · rw [hTrim', hWide.readNumeral_eq]
      exact not_isNumberOf_of_misread hWide

end Value

end Numeral
