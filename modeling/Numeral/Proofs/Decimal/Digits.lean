import Numeral.Binary64.Shortest
import Numeral.Decimal.Rounding
import Mathlib.Data.List.Induction
import Mathlib.Tactic.Ring

/-!
# Digits below ten

Writing a digit as a character and reading it back needs the digit to be below ten.  Every list of
digits in this library is made of such digits:

* `readDigits_digitText`: a list of digits below ten reads back as the number that it denotes, and
  `ofDigits_append` and `ofDigits_padLeft_append` say which number that is for two lists end to end.
* `increment_spec`: counting one up, digit by digit from the last one, adds one to the number, and a
  carry out of the first digit is worth one more digit.
* `roundsTo_roundAt`: what rounding at a place can lead to.  Whatever is said about rounding is said
  case by case of this.
* `Decimal.BelowTen`: all digits of a decimal are below ten.  Scaling and rounding keep this, so it
  holds of the shortest decimal of every magnitude (`belowTen_shortest`), and of the two lists that
  are shown for it (`withFractionDigits_lt_ten`, `withSignificantDigits_lt_ten`).
-/

namespace Numeral.Decimal

/-! ## One digit -/

theorem digitValue_digitChar {d : Nat} (h : d < 10) : digitValue (Nat.digitChar d) = d := by
  have hAll : ∀ e < 10, digitValue (Nat.digitChar e) = e := by decide
  exact hAll d h

theorem isDigit_digitChar {d : Nat} (h : d < 10) : (Nat.digitChar d).isDigit = true := by
  have hAll : ∀ e < 10, (Nat.digitChar e).isDigit = true := by decide
  exact hAll d h

/-! ## Lists of digits -/

theorem isDigit_of_mem_digitText {ds : List Nat} (h : ∀ d ∈ ds, d < 10) :
    ∀ c ∈ digitText ds, c.isDigit = true := by
  intro c hc
  obtain ⟨d, hd, rfl⟩ := List.mem_map.mp hc
  exact isDigit_digitChar (h d hd)

@[simp]
theorem length_digitText (ds : List Nat) : (digitText ds).length = ds.length := by
  simp [digitText]

@[simp]
theorem digitText_append (as bs : List Nat) :
    digitText (as ++ bs) = digitText as ++ digitText bs := by
  simp [digitText]

theorem digitText_eq_nil_iff {ds : List Nat} : digitText ds = [] ↔ ds = [] := by
  simp [digitText]

/-- A list of digits reads back as the number that it denotes. -/
theorem readDigits_digitText {ds : List Nat} (h : ∀ d ∈ ds, d < 10) :
    readDigits (digitText ds) = ofDigits ds := by
  rw [readDigits, digitText, List.map_map]
  congr 1
  refine (List.map_congr_left fun d hd => ?_).trans (List.map_id ds)
  exact digitValue_digitChar (h d hd)

theorem ofDigits_append (as bs : List Nat) :
    ofDigits (as ++ bs) = ofDigits as * 10 ^ bs.length + ofDigits bs := by
  induction bs using List.reverseRecOn with
  | nil => simp [ofDigits]
  | append_singleton bs b ih =>
    rw [← List.append_assoc, ofDigits_concat, ih, ofDigits_concat, List.length_append,
      List.length_singleton, Nat.pow_succ]
    ring

theorem ofDigits_replicate_zero (n : Nat) : ofDigits (List.replicate n 0) = 0 := by
  induction n with
  | zero => rfl
  | succ n ih => rw [List.replicate_succ', ofDigits_concat, ih]

/-- Zeros at the front do not change the number. -/
theorem ofDigits_padLeft_append (n : Nat) (as bs : List Nat) :
    ofDigits (padLeft n as ++ bs) = ofDigits (as ++ bs) := by
  rw [padLeft, List.append_assoc, ofDigits_append, ofDigits_replicate_zero, Nat.zero_mul,
    Nat.zero_add]

theorem padLeft_ne_nil {n : Nat} (h : 1 ≤ n) (ds : List Nat) : padLeft n ds ≠ [] := by
  intro hn
  have hLength := le_length_padLeft n ds
  rw [hn, List.length_nil] at hLength
  omega

theorem length_padLeft (n : Nat) (ds : List Nat) : (padLeft n ds).length = max n ds.length := by
  rw [padLeft, List.length_append, List.length_replicate]
  omega

theorem lt_ten_padLeft {n : Nat} {ds : List Nat} (h : ∀ d ∈ ds, d < 10) :
    ∀ d ∈ padLeft n ds, d < 10 := by
  intro d hd
  rcases List.mem_append.mp hd with hz | hm
  · rw [List.eq_of_mem_replicate hz]
    omega
  · exact h d hm

theorem lt_ten_padRight {n : Nat} {ds : List Nat} (h : ∀ d ∈ ds, d < 10) :
    ∀ d ∈ padRight n ds, d < 10 := by
  intro d hd
  rcases List.mem_append.mp hd with hm | hz
  · exact h d hm
  · rw [List.eq_of_mem_replicate hz]
    omega

theorem ofDigits_cons (d : Nat) (ds : List Nat) :
    ofDigits (d :: ds) = d * 10 ^ ds.length + ofDigits ds := by
  have hOne : ofDigits [d] = d := by simp [ofDigits]
  rw [← List.singleton_append, ofDigits_append, hOne]

theorem mem_of_mem_trimZeros {ds : List Nat} {d : Nat} (h : d ∈ trimZeros ds) : d ∈ ds := by
  have hd := List.mem_reverse.mp h
  exact List.mem_reverse.mp ((List.dropWhile_suffix _).subset hd)

/-! ## Counting one up -/

theorem lt_ten_increment {ds : List Nat} (h : ∀ d ∈ ds, d < 10) :
    ∀ d ∈ (increment ds).2, d < 10 := by
  induction ds with
  | nil => exact h
  | cons d ds ih =>
    have hd : d < 10 := h d List.mem_cons_self
    have hds := ih fun e he => h e (List.mem_cons_of_mem d he)
    rw [increment]
    cases hi : increment ds with
    | mk carried es =>
      rw [hi] at hds
      cases carried with
      | false =>
        intro e he
        rcases List.mem_cons.mp he with rfl | he
        · exact hd
        · exact hds e he
      | true =>
        simp only []
        by_cases h9 : d = 9
        · rw [if_pos h9]
          intro e he
          rcases List.mem_cons.mp he with rfl | he
          · omega
          · exact hds e he
        · rw [if_neg h9]
          intro e he
          rcases List.mem_cons.mp he with rfl | he
          · omega
          · exact hds e he

/-- Counting up keeps the number of digits, and adds one with the carry counted in. -/
theorem increment_spec (ds : List Nat) :
    (increment ds).2.length = ds.length ∧
      (if (increment ds).1 then 10 ^ ds.length else 0) + ofDigits (increment ds).2 =
        ofDigits ds + 1 := by
  induction ds with
  | nil => exact ⟨rfl, rfl⟩
  | cons d ds ih =>
    obtain ⟨hLength, hValue⟩ := ih
    rw [increment]
    cases hi : increment ds with
    | mk carried es =>
      rw [hi] at hLength hValue
      simp only [] at hLength
      cases carried with
      | false =>
        simp only [Bool.false_eq_true, if_false, zero_add] at hValue
        refine ⟨by simp only [List.length_cons, hLength], ?_⟩
        simp only [Bool.false_eq_true, if_false, zero_add, ofDigits_cons, hLength, hValue]
        omega
      | true =>
        simp only [if_true] at hValue
        by_cases h9 : d = 9
        · subst h9
          refine ⟨by simp only [if_true, List.length_cons, hLength], ?_⟩
          simp only [if_true, ofDigits_cons, hLength, List.length_cons, pow_succ]
          omega
        · refine ⟨by simp only [if_neg h9, List.length_cons, hLength], ?_⟩
          simp only [if_neg h9, Bool.false_eq_true, if_false, zero_add, ofDigits_cons, hLength]
          rw [add_mul]
          omega

theorem head?_increment_ne_zero {ds es : List Nat} (h : ds.head? ≠ some 0)
    (hi : increment ds = (false, es)) : es.head? ≠ some 0 := by
  cases ds with
  | nil => cases hi
  | cons d ds =>
    have hd : d ≠ 0 := fun hd => h (by rw [hd, List.head?_cons])
    rw [increment] at hi
    split at hi
    · cases hi
      exact h
    · split at hi
      · cases hi
      · cases hi
        simp

/-- The digits at the second point count one more in their last place than those at the first. -/
structure IsNext (ds : List Nat) (point : Int) (es : List Nat) (point' : Int) : Prop where
  ofDigits : ofDigits es = ofDigits ds + 1
  place : (es.length : Int) - point' = ds.length - point
  lt_ten : (∀ d ∈ ds, d < 10) → ∀ e ∈ es, e < 10
  head?_ne_zero : ds.head? ≠ some 0 → es.head? ≠ some 0

/-- What is carried out of the first digit becomes the first digit, and the point moves with it. -/
theorem exists_incrementAt_eq (ds : List Nat) (point : Int) :
    ∃ es point', incrementAt ds point = ofDigitsAt es point' ∧ IsNext ds point es point' := by
  obtain ⟨hLength, hValue⟩ := increment_spec ds
  have hBelow := @lt_ten_increment ds
  rw [incrementAt]
  cases hi : increment ds with
  | mk carried es =>
    rw [hi] at hLength hValue hBelow
    simp only [] at hLength
    cases carried with
    | false =>
      simp only [Bool.false_eq_true, if_false, zero_add] at hValue
      exact ⟨es, point, rfl, hValue, by rw [hLength], hBelow,
        fun hHead => head?_increment_ne_zero hHead hi⟩
    | true =>
      have hPlace : ((1 :: es).length : Int) - (point + 1) = ds.length - point := by
        rw [List.length_cons, hLength]
        push_cast
        ring
      refine ⟨1 :: es, point + 1, rfl, ?_, hPlace, ?_, fun _ => by simp⟩
      · rw [ofDigits_cons, one_mul, hLength, ← hValue, if_pos rfl]
      · intro h e he
        rcases List.mem_cons.mp he with rfl | he
        · decide
        · exact hBelow h e he

/-! ## Rounding by cases -/

/-- What rounding a decimal at a place can lead to: the place stands before the first digit or
behind the last one, or the digits are cut there and the first digit behind the cut decides. -/
inductive RoundsTo (d : Decimal) (keep : Int) : Decimal → Prop
  | before : keep < 0 → RoundsTo d keep ⟨[], d.point⟩
  | behind : 0 ≤ keep → d.digits.length ≤ keep → RoundsTo d keep d
  | down {kept rest : List Nat} {next : Nat} : d.digits = kept ++ next :: rest →
      keep = kept.length → next < 5 → RoundsTo d keep (ofDigitsAt kept d.point)
  | up {kept rest es : List Nat} {next : Nat} {point : Int} : d.digits = kept ++ next :: rest →
      keep = kept.length → 5 ≤ next → IsNext kept d.point es point →
      RoundsTo d keep (ofDigitsAt es point)

theorem roundsTo_roundAt (d : Decimal) (keep : Int) : d.RoundsTo keep (d.roundAt keep) := by
  rw [roundAt]
  by_cases hNeg : keep < 0
  · rw [if_pos hNeg]
    exact .before hNeg
  · rw [if_neg hNeg]
    have hCut := List.take_append_drop keep.toNat d.digits
    cases hDrop : d.digits.drop keep.toNat with
    | nil =>
      have hLength := List.drop_eq_nil_iff.mp hDrop
      exact .behind (by omega) (by omega)
    | cons next rest =>
      rw [hDrop] at hCut
      have hKeep : keep = (d.digits.take keep.toNat).length := by
        have hLength := congrArg List.length hDrop
        rw [List.length_drop, List.length_cons] at hLength
        rw [List.length_take]
        omega
      simp only []
      split
      · rename_i hDown
        exact .down hCut.symm hKeep hDown
      · rename_i hUp
        obtain ⟨es, point, hEq, hNext⟩ := exists_incrementAt_eq (d.digits.take keep.toNat) d.point
        rw [hEq]
        exact .up hCut.symm hKeep (Nat.le_of_not_lt hUp) hNext

/-! ## Decimals -/

/-- All digits of the decimal are below ten. -/
def BelowTen (d : Decimal) : Prop := ∀ e ∈ d.digits, e < 10

theorem belowTen_zero : zero.BelowTen := by
  intro e he
  exact absurd he List.not_mem_nil

theorem belowTen_ofScaled (n : Nat) (e : Int) : (ofScaled n e).BelowTen := by
  unfold ofScaled
  split
  · exact belowTen_zero
  · intro d hd
    exact lt_ten_of_mem_digitsOf (mem_of_mem_trimZeros hd)

theorem belowTen_ofDigitsAt {ds : List Nat} (h : ∀ d ∈ ds, d < 10) (point : Int) :
    (ofDigitsAt ds point).BelowTen := by
  unfold ofDigitsAt
  split
  · exact belowTen_zero
  · exact fun d hd => h d (mem_of_mem_trimZeros hd)

theorem BelowTen.roundAt {d : Decimal} (h : d.BelowTen) (keep : Int) :
    (d.roundAt keep).BelowTen := by
  have hRound := d.roundsTo_roundAt keep
  generalize d.roundAt keep = r at hRound ⊢
  have hKept : ∀ {kept rest : List Nat}, d.digits = kept ++ rest → ∀ e ∈ kept, e < 10 :=
    fun hCut e he => h e (hCut ▸ List.mem_append_left _ he)
  cases hRound with
  | before _ => exact belowTen_zero
  | behind _ _ => exact h
  | down hCut _ _ => exact belowTen_ofDigitsAt (hKept hCut) _
  | up hCut _ _ hNext => exact belowTen_ofDigitsAt (hNext.lt_ten (hKept hCut)) _

theorem BelowTen.integerDigits {d : Decimal} (h : d.BelowTen) : ∀ e ∈ d.integerDigits, e < 10 := by
  unfold Decimal.integerDigits
  split
  · intro e he
    exact absurd he List.not_mem_nil
  · exact lt_ten_padRight fun e he => h e (List.mem_of_mem_take he)

theorem BelowTen.fractionDigits {d : Decimal} (h : d.BelowTen) :
    ∀ e ∈ d.fractionDigits, e < 10 := by
  unfold Decimal.fractionDigits
  split
  · intro e he
    exact absurd he List.not_mem_nil
  · intro e he
    rcases List.mem_append.mp he with hz | hm
    · rw [List.eq_of_mem_replicate hz]
      omega
    · exact h e (List.mem_of_mem_drop hm)

theorem withFractionDigits_lt_ten {d : Decimal} (h : d.BelowTen) (range : DigitRange) :
    (∀ e ∈ (d.withFractionDigits range).1, e < 10) ∧ ∀ e ∈ (d.withFractionDigits range).2, e < 10 :=
  have hr := h.roundAt (d.point + range.maximum)
  ⟨hr.integerDigits, lt_ten_padRight hr.fractionDigits⟩

theorem withSignificantDigits_lt_ten {d : Decimal} (h : d.BelowTen) (range : DigitRange) :
    (∀ e ∈ (d.withSignificantDigits range).1, e < 10) ∧
      ∀ e ∈ (d.withSignificantDigits range).2, e < 10 :=
  have hr := h.roundAt range.maximum
  ⟨hr.integerDigits, lt_ten_padRight hr.fractionDigits⟩

/-- The shortest decimal of a magnitude is put together from a number and a power of ten. -/
theorem exists_shortest_eq (tie : Tie) (x : Magnitude) : ∃ n e, x.shortest tie = ofScaled n e := by
  unfold Magnitude.shortest
  split
  · exact ⟨0, 0, rfl⟩
  · simp only []
    cases hf : (List.range' 1 17).findSome? _ with
    | none => exact ⟨_, _, rfl⟩
    | some d =>
      obtain ⟨count, _, hd⟩ := List.exists_of_findSome?_eq_some hf
      obtain ⟨n, _, rfl⟩ := Option.map_eq_some_iff.mp hd
      exact ⟨n, _, rfl⟩

/-- The shortest decimal of every magnitude has digits below ten. -/
theorem belowTen_shortest (tie : Tie) (x : Magnitude) : (x.shortest tie).BelowTen := by
  obtain ⟨n, e, h⟩ := exists_shortest_eq tie x
  rw [h]
  exact belowTen_ofScaled n e

end Numeral.Decimal
