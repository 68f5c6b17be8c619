import Numeral.Options.Validation
import Numeral.Proofs.Binary64.Rational
import Numeral.Proofs.Locale.Subtag
import Numeral.Proofs.Outcome

/-!
# Rules of options

There are eleven options, and each has a rule for its value: it is a text of some shape, or a
number within bounds, or anything.  An option that is absent or null breaks no rule.  What is read
for an option is its fault if it breaks its rule, and else its value or its default
(`keyword_eq`, `count_eq`, `text?_bind_eq`).
-/

namespace Numeral

/-! ### Values -/

/-- The number that a value converts to, if it converts to a finite one. -/
def Value.toRat? (v : Value) : Option ℚ := v.toNumber?.bind Binary64.toRat?

/-- What the value of an option has to be. -/
inductive Rule where
  /-- A text of a shape. -/
  | text (shape : String → Bool)
  /-- A value that converts to a number from `min` to `max`. -/
  | count (min max : Nat)
  /-- Any value. -/
  | anything

namespace Rule

/-- Whether a value is as the rule says. -/
def admits : Rule → Value → Bool
  | text shape, v => v.asString?.any shape
  | count min max, v => v.toRat?.any fun q => (min : ℚ) ≤ q ∧ q ≤ max
  | anything, _ => true

/-- The error of an option whose value is not as the rule says. -/
def error (name : String) (v : Value) : Rule → OptionError
  | count min max => .outOfRange name v min max
  | _ => .invalid name v

end Rule

/-- Whether a text is one of the words of a type. -/
def Keyword.isWord (α : Type) [Keyword α] (s : String) : Bool :=
  ((Keyword.all (α := α)).map Keyword.word).contains s

theorem Keyword.isSome_ofWord? {α : Type} [Keyword α] (s : String) :
    (ofWord? (α := α) s).isSome = isWord α s := by
  rw [Bool.eq_iff_iff, ofWord?, List.find?_isSome, isWord, List.contains_iff_mem, List.mem_map]
  simp only [beq_iff_eq]

theorem isUpper_toUpper (c : Char) : c.toUpper.isUpper = c.isAlpha := by
  by_cases h : c.isLower = true
  · have hc : c.isAlphanum = true := isAlphanum_of_isAlpha (Bool.or_eq_true_iff.mpr (.inr h))
    exact of_isAlphanum (P := fun c => c.toUpper.isUpper = c.isAlpha) (by decide) hc
  · have hRange : ¬ (c.val ≥ 97 ∧ c.val ≤ 122) := by
      unfold Char.isLower at h
      simpa using h
    have hUpper : c.toUpper = c := dif_neg hRange
    rw [hUpper]
    unfold Char.isAlpha
    rw [Bool.eq_false_iff.mpr h, Bool.or_false]

/-- A text spells a currency code in letters of either case exactly when it is three letters. -/
theorem CurrencyCode.parse?_eq (s : String) :
    (parse? s).map CurrencyCode.text = if isWellFormed s then some s.toUpper else none := by
  have hShape : IsCurrencyCode s.toUpper ↔ isWellFormed s = true := by
    rw [IsCurrencyCode, isWellFormed, String.toUpper, String.toList_map, List.length_map,
      Bool.and_eq_true, beq_iff_eq, List.all_eq_true]
    simp only [List.mem_map, forall_exists_index, and_imp, forall_apply_eq_imp_iff₂,
      isUpper_toUpper]
  by_cases h : isWellFormed s = true
  · rw [parse?, dif_pos (hShape.mpr h), if_pos h]
    rfl
  · rw [parse?, dif_neg fun hs => h (hShape.mp hs), if_neg h]
    rfl

theorem CurrencyCode.isSome_parse? (s : String) : (parse? s).isSome = isWellFormed s := by
  rw [← Option.isSome_map, parse?_eq]
  by_cases h : isWellFormed s = true
  · rw [if_pos h, h]
    rfl
  · rw [if_neg h, Bool.eq_false_iff.mpr h]
    rfl

/-! ### Options -/

/-- The options that are looked at. -/
inductive OptionName where
  /-- How locales are matched. -/
  | localeMatcher
  /-- The style. -/
  | style
  /-- The currency. -/
  | currency
  /-- How the currency is labelled. -/
  | currencyDisplay
  /-- The least number of digits before the point. -/
  | minimumIntegerDigits
  /-- The least number of digits after the point. -/
  | minimumFractionDigits
  /-- The greatest number of digits after the point. -/
  | maximumFractionDigits
  /-- The least number of significant digits. -/
  | minimumSignificantDigits
  /-- The greatest number of significant digits. -/
  | maximumSignificantDigits
  /-- Whether the digits before the point are grouped. -/
  | useGrouping
  /-- The numbering system. -/
  | numberingSystem
  deriving DecidableEq

/-- The text under which the option is given. -/
def OptionName.text : OptionName → String
  | localeMatcher => "localeMatcher"
  | style => "style"
  | currency => "currency"
  | currencyDisplay => "currencyDisplay"
  | minimumIntegerDigits => "minimumIntegerDigits"
  | minimumFractionDigits => "minimumFractionDigits"
  | maximumFractionDigits => "maximumFractionDigits"
  | minimumSignificantDigits => "minimumSignificantDigits"
  | maximumSignificantDigits => "maximumSignificantDigits"
  | useGrouping => "useGrouping"
  | numberingSystem => "numberingSystem"

namespace Options

/-- The value of an option that is neither absent nor null. -/
def value? (o : Options) (n : OptionName) : Option Value := o.given? n.text

/-- The text that an option is, if it is one. -/
def textOf? (o : Options) (n : OptionName) : Option String := (o.value? n).bind Value.asString?

/-- The whole part of the number that an option converts to, or the default if it is not given. -/
def wholeOr (o : Options) (n : OptionName) (default : Nat) : Nat :=
  ((o.value? n).bind Value.toRat?).elim default Nat.floor

/-- The keyword that an option is, or the default if it is not given. -/
def keywordOr {α : Type} [Keyword α] (o : Options) (n : OptionName) (default : α) : α :=
  ((o.textOf? n).bind Keyword.ofWord?).getD default

/-- Whether the style that is asked for is the currency style. -/
def wantsCurrency (o : Options) : Bool := o.textOf? .style == some "currency"

end Options

/-- The rule of each option.  The greatest number of digits has to be at least the least one, and
the label of the currency is not looked at under the other styles. -/
def OptionName.rule (o : Options) : OptionName → Rule
  | localeMatcher => .text (Keyword.isWord LocaleMatcher)
  | style => .text (Keyword.isWord StyleName)
  | currency => .text CurrencyCode.isWellFormed
  | currencyDisplay =>
    if o.wantsCurrency then .text (Keyword.isWord CurrencyDisplay) else .anything
  | minimumIntegerDigits => .count 1 21
  | minimumFractionDigits => .count 0 20
  | maximumFractionDigits => .count (o.wholeOr .minimumFractionDigits 0) 20
  | minimumSignificantDigits => .count 1 21
  | maximumSignificantDigits => .count (o.wholeOr .minimumSignificantDigits 1) 21
  | useGrouping => .anything
  | numberingSystem => .text isUnicodeType

namespace Options

variable {o : Options} {n : OptionName}

/-- The fault of an option: it is given, and its value is not as its rule says. -/
def fault? (o : Options) (n : OptionName) : Option OptionError :=
  ((o.value? n).filter fun v => !(n.rule o).admits v).map fun v => (n.rule o).error n.text v

theorem fault?_eq_none_iff : o.fault? n = none ↔ ∀ v ∈ o.value? n, (n.rule o).admits v = true := by
  rw [fault?, Option.map_eq_none_iff, Option.filter_eq_none_iff]
  simp only [Bool.not_eq_true, Bool.not_eq_false', Option.mem_def]

theorem fault?_of_not_given (h : o.value? n = none) : o.fault? n = none := by
  rw [fault?, h]
  rfl

theorem fault?_of_given {v : Value} (h : o.value? n = some v) :
    o.fault? n = if (n.rule o).admits v then none else some ((n.rule o).error n.text v) := by
  rw [fault?, h, Option.filter_some]
  by_cases ha : (n.rule o).admits v = true
  · rw [if_pos ha, if_neg (by simp [ha])]
    rfl
  · rw [if_neg ha, if_pos (by simp [ha])]
    rfl

/-- A text that has been read is the value of its option, unless the option breaks its rule. -/
theorem text?_bind_eq {β : Type} {shape : String → Bool} {k : Option String → Except OptionError β}
    {b : Option String → β} (hRule : n.rule o = .text shape) (hNone : k none = .ok (b none))
    (hGood : ∀ s, shape s = true → k (some s) = .ok (b (some s)))
    (hBad : ∀ s, shape s = false → k (some s) = .error (.invalid n.text (.string s))) :
    (o.text? n.text >>= k) = outcome (o.fault? n) (b (o.textOf? n)) := by
  have hGiven : o.given? n.text = o.value? n := rfl
  rw [text?, hGiven, textOf?]
  cases hv : o.value? n with
  | none =>
    rw [fault?_of_not_given hv]
    exact hNone
  | some v =>
    rw [fault?_of_given hv, hRule]
    cases v with
    | string s =>
      show k (some s) = outcome (if shape s = true then none else _) (b (some s))
      by_cases hs : shape s = true
      · rw [if_pos hs, hGood s hs]
        rfl
      · rw [if_neg hs, hBad s (Bool.eq_false_iff.mpr hs)]
        rfl
    | null => rfl
    | bool _ => rfl
    | number _ => rfl
    | array _ => rfl
    | object _ => rfl

theorem keyword_eq {α : Type} [Keyword α] (hRule : n.rule o = .text (Keyword.isWord α))
    (default : α) :
    o.keyword n.text default = outcome (o.fault? n) (o.keywordOr n default) := by
  have hGiven : o.given? n.text = o.value? n := rfl
  rw [keyword, hGiven, keywordOr, textOf?]
  cases hv : o.value? n with
  | none =>
    rw [fault?_of_not_given hv]
    rfl
  | some v =>
    rw [fault?_of_given hv, hRule]
    cases v with
    | string s =>
      show _ = outcome (if Keyword.isWord α s = true then none else _)
        ((Keyword.ofWord? s).getD default)
      rw [← Keyword.isSome_ofWord?]
      simp only [Value.asString?, Option.bind_some]
      cases (Keyword.ofWord? s : Option α) with
      | none => rfl
      | some a => rfl
    | null => rfl
    | bool _ => rfl
    | number _ => rfl
    | array _ => rfl
    | object _ => rfl

theorem count_eq {min max : Nat} (hRule : n.rule o = .count min max) (default : Nat) :
    o.count n.text min max default = outcome (o.fault? n) (o.wholeOr n default) := by
  have hGiven : o.given? n.text = o.value? n := rfl
  rw [count, hGiven, wholeOr]
  cases hv : o.value? n with
  | none =>
    rw [fault?_of_not_given hv]
    rfl
  | some v =>
    have hWhole : v.toNumber?.bind (Binary64.wholeWithin? min max) =
        v.toRat?.bind fun q => if (min : ℚ) ≤ q ∧ q ≤ max then some ⌊q⌋₊ else none := by
      rw [Value.toRat?, Option.bind_assoc]
      congr
      funext x
      exact Binary64.wholeWithin?_eq min max x
    rw [fault?_of_given hv, hRule, Rule.admits, Option.bind_some]
    simp only [hWhole]
    cases v.toRat? with
    | none => rfl
    | some q =>
      rw [Option.bind_some, Option.any_some, Option.elim_some]
      by_cases hq : (min : ℚ) ≤ q ∧ q ≤ max
      · rw [if_pos hq, if_pos (decide_eq_true hq)]
        rfl
      · rw [if_neg hq, if_neg (by simpa using hq)]
        rfl

end Options

end Numeral
