import Numeral.Proofs.Options.Bounds
import Numeral.Proofs.Options.Faults

/-!
# Valid options

Options are valid when every option that is given is as its rule says, and there is a currency
under the currency style.  The valid options are those that pass their checks, the configuration
that comes of them is what they ask for, and entries that no check looks at may be left out
(`validate_valid`).
-/

namespace Numeral

namespace Options

variable {o o' : Options} {n : OptionName}

/-- Every option that is given is as its rule says, and there is a currency under the currency
style. -/
structure IsValid (o : Options) : Prop where
  admitted : ∀ n, ∀ v ∈ o.value? n, (n.rule o).admits v = true
  currency : o.wantsCurrency = true → (o.value? .currency).isSome = true

theorem missing?_eq_none_iff :
    o.missing? = none ↔ (o.wantsCurrency = true → (o.value? .currency).isSome = true) := by
  rw [missing?, ite_eq_right_iff, ← Option.ne_none_iff_isSome]
  simp

theorem fault?_mem_faults (h : n ≠ .useGrouping) : o.fault? n ∈ o.faults := by
  cases n with
  | useGrouping => exact absurd rfl h
  | _ => simp [faults, laterFaults]

theorem missing?_mem_faults (o : Options) : o.missing? ∈ o.faults := by
  simp [faults, laterFaults]

theorem eq_of_mem_faults {fault : Option OptionError} (h : fault ∈ o.faults) :
    fault = o.missing? ∨ ∃ n, fault = o.fault? n := by
  simp only [faults, laterFaults, List.mem_cons, List.not_mem_nil, or_false] at h
  rcases h with h | h | h | h | h | h | h | h | h | h | h
  · exact .inr ⟨_, h⟩
  · exact .inr ⟨_, h⟩
  · exact .inr ⟨_, h⟩
  · exact .inl h
  all_goals exact .inr ⟨_, h⟩

/-- Options have no fault exactly when they are valid. -/
theorem firstFault_faults_eq_none_iff : firstFault o.faults = none ↔ o.IsValid := by
  rw [firstFault_eq_none_iff]
  constructor
  · intro h
    refine ⟨?_, missing?_eq_none_iff.mp (h _ o.missing?_mem_faults)⟩
    intro n
    by_cases hn : n = .useGrouping
    · rw [hn]
      intro v _
      rfl
    · exact fault?_eq_none_iff.mp (h _ (fault?_mem_faults hn))
  · intro h fault hFault
    rcases eq_of_mem_faults hFault with rfl | ⟨n, rfl⟩
    · exact missing?_eq_none_iff.mpr h.currency
    · exact fault?_eq_none_iff.mpr (h.admitted n)

theorem validate_eq_ok_iff {c : Config} : o.validate = .ok c ↔ o.IsValid ∧ o.asked = c := by
  rw [validate_eq, outcome_eq_ok_iff, firstFault_faults_eq_none_iff]

/-! ### What valid options ask for -/

/-- A count that is asked for: the floor of the option's number, or the default if it is not
given. -/
def Counts (o : Options) (n : OptionName) (default k : Nat) : Prop :=
  (∀ v ∈ o.value? n, ∃ q, v.toRat? = some q ∧ ⌊q⌋ = (k : ℤ)) ∧ (o.value? n = none → k = default)

theorem counts_wholeOr (h : o.IsValid) {min max : Nat} (hRule : n.rule o = .count min max)
    (default : Nat) : o.Counts n default (o.wholeOr n default) := by
  rw [wholeOr]
  refine ⟨?_, ?_⟩
  · intro v hv
    have hAdmits : v.toRat?.any (fun q => decide ((min : ℚ) ≤ q ∧ q ≤ max)) = true := by
      have hAdmits := h.admitted n v hv
      rwa [hRule] at hAdmits
    obtain ⟨q, hq, hBounds⟩ := (Option.any_eq_true ..).mp hAdmits
    refine ⟨q, hq, ?_⟩
    have hPos : 0 ≤ q := le_trans (Nat.cast_nonneg min) (of_decide_eq_true hBounds).1
    rw [Option.mem_def.mp hv, Option.bind_some, hq, Option.elim_some,
      Int.natCast_floor_eq_floor hPos]
  · intro hv
    rw [hv]
    rfl

/-- What a configuration has of the options that it comes from. -/
structure Yields (o : Options) (c : Config) : Prop where
  /-- All counts are within their bounds. -/
  bounded : c.Bounded
  /-- The least number of digits before the point is one unless it is given. -/
  integer : o.Counts .minimumIntegerDigits 1 c.minimumIntegerDigits
  /-- The least number of digits after the point is zero unless it is given. -/
  fractionMinimum : o.Counts .minimumFractionDigits 0 c.fractionDigits.minimum
  /-- The greatest number of digits after the point is three unless it is given or the least number
  is greater. -/
  fractionMaximum :
    o.Counts .maximumFractionDigits (max 3 c.fractionDigits.minimum) c.fractionDigits.maximum
  /-- There are bounds on the significant digits if one of the two is given. -/
  significant : c.significantDigits.isSome = true ↔
    (o.value? .minimumSignificantDigits).isSome = true ∨
      (o.value? .maximumSignificantDigits).isSome = true
  /-- Then the other one is 1 or 21. -/
  significantBounds : ∀ r ∈ c.significantDigits,
    o.Counts .minimumSignificantDigits 1 r.minimum ∧ o.Counts .maximumSignificantDigits 21 r.maximum
  /-- The style is the one that is given. -/
  style : c.style.name = .currency ↔ o.wantsCurrency = true
  /-- There is a currency and a label for it under the currency style alone. -/
  currency : (c.style.currencyCode?.isSome = true ↔ c.style.name = .currency) ∧
    (c.style.currencyDisplay?.isSome = true ↔ c.style.name = .currency)
  /-- The currency is the one that is given, in three capital letters. -/
  currencyCode : ∀ code ∈ c.style.currencyCode?, ∃ s, o.value? .currency = some (.string s) ∧
    code.text = s.toUpper ∧ code.text.toList.length = 3 ∧ ∀ ch ∈ code.text.toList, ch.isUpper = true
  /-- There is a numbering system if one is given. -/
  numberingSystem :
    c.numberingSystem.isSome = true ↔ (o.value? .numberingSystem).isSome = true
  /-- It is the one that is given, in three to eight small letters and digits. -/
  numberingSystemType : ∀ nu ∈ c.numberingSystem,
    ∃ s, o.value? .numberingSystem = some (.string s) ∧ nu = s.toLower ∧
      3 ≤ nu.toList.length ∧ nu.toList.length ≤ 8 ∧
        ∀ ch ∈ nu.toList, ch.isLower = true ∨ ch.isDigit = true

/-- An option whose rule asks for a text is given as one. -/
theorem IsValid.exists_string (h : o.IsValid) {shape : String → Bool}
    (hRule : n.rule o = .text shape) {v : Value} (hv : o.value? n = some v) :
    ∃ s, v = .string s ∧ shape s = true := by
  have hAdmits := h.admitted n v hv
  rw [hRule, Rule.admits] at hAdmits
  obtain ⟨s, hs, hShape⟩ := (Option.any_eq_true ..).mp hAdmits
  cases v with
  | string t =>
    obtain rfl := Option.some.inj hs
    exact ⟨t, rfl, hShape⟩
  | _ => cases hs

theorem IsValid.textOf?_isSome (h : o.IsValid) {shape : String → Bool}
    (hRule : n.rule o = .text shape) : (o.textOf? n).isSome = (o.value? n).isSome := by
  rw [textOf?]
  cases hv : o.value? n with
  | none => rfl
  | some v =>
    obtain ⟨s, rfl, -⟩ := h.exists_string hRule hv
    rfl

theorem exists_string_of_textOf? {s : String} (h : o.textOf? n = some s) :
    o.value? n = some (.string s) := by
  obtain ⟨v, hv, hs⟩ := Option.bind_eq_some_iff.mp h
  cases v with
  | string t =>
    obtain rfl := Option.some.inj hs
    exact hv
  | _ => cases hs

/-- The style that valid options ask for. -/
theorem IsValid.styleAsked_eq (h : o.IsValid) :
    (o.wantsCurrency = true ∧ ∃ code, o.currencyAsked? = some code ∧
        o.styleAsked = .currency code (o.keywordOr .currencyDisplay .symbol)) ∨
      (o.wantsCurrency = false ∧ (o.styleAsked = .decimal ∨ o.styleAsked = .percent)) := by
  by_cases hw : o.wantsCurrency = true
  · left
    refine ⟨hw, ?_⟩
    cases hCode : o.currencyAsked? with
    | none =>
      have hNone := (currencyAsked?_eq_none_iff (fault?_eq_none_iff.mpr (h.admitted _))).mp hCode
      have hSome := h.currency hw
      rw [hNone] at hSome
      cases hSome
    | some code =>
      refine ⟨code, rfl, ?_⟩
      rw [styleAsked, wantsCurrency_iff.mp hw, hCode]
  · right
    refine ⟨Bool.eq_false_iff.mpr hw, ?_⟩
    rw [styleAsked]
    cases hName : o.keywordOr .style StyleName.decimal with
    | decimal => exact .inl rfl
    | percent => exact .inr rfl
    | currency => exact absurd (wantsCurrency_iff.mpr hName) hw

theorem IsValid.currencyAsked?_eq (h : o.IsValid) {code : CurrencyCode}
    (hCode : o.currencyAsked? = some code) :
    ∃ s, o.value? .currency = some (.string s) ∧ code.text = s.toUpper := by
  obtain ⟨s, hs, hParse⟩ := Option.bind_eq_some_iff.mp hCode
  have hv := exists_string_of_textOf? hs
  obtain ⟨t, ht, hShape⟩ := h.exists_string (n := .currency) rfl hv
  obtain rfl := Value.string.inj ht
  refine ⟨s, hv, ?_⟩
  have hText := CurrencyCode.parse?_eq s
  rw [hParse, if_pos hShape] at hText
  exact Option.some.inj hText

theorem isLower_toLower {c : Char} (h : c.isAlphanum = true) :
    c.toLower.isLower = true ∨ c.toLower.isDigit = true :=
  of_isAlphanum (P := fun c => c.toLower.isLower = true ∨ c.toLower.isDigit = true) (by decide) h

theorem yields_asked (h : o.IsValid) : o.Yields o.asked where
  bounded := bounded_of_validate (validate_eq_ok_iff.mpr ⟨h, rfl⟩)
  integer := counts_wholeOr h rfl 1
  fractionMinimum := counts_wholeOr h rfl 0
  fractionMaximum := counts_wholeOr h rfl _
  significant := by
    show o.significantAsked?.isSome = true ↔ _
    rw [significantAsked?, ← Option.ne_none_iff_isSome, ← Option.ne_none_iff_isSome,
      ← Option.ne_none_iff_isSome, ← not_and_or]
    simp
  significantBounds := by
    intro r hr
    have hr : o.significantAsked? = some r := hr
    rw [significantAsked?] at hr
    split at hr
    · cases hr
    · obtain rfl := Option.some.inj hr
      exact ⟨counts_wholeOr h rfl 1, counts_wholeOr h rfl 21⟩
  style := by
    show o.styleAsked.name = .currency ↔ _
    rcases h.styleAsked_eq with ⟨hw, code, -, hs⟩ | ⟨hw, hs | hs⟩
    · simp [hw, hs, Style.name]
    · simp [hw, hs, Style.name]
    · simp [hw, hs, Style.name]
  currency := by
    show (o.styleAsked.currencyCode?.isSome = true ↔ o.styleAsked.name = .currency) ∧
      (o.styleAsked.currencyDisplay?.isSome = true ↔ o.styleAsked.name = .currency)
    cases o.styleAsked with
    | decimal => simp [Style.currencyCode?, Style.currencyDisplay?, Style.name]
    | percent => simp [Style.currencyCode?, Style.currencyDisplay?, Style.name]
    | currency code display => simp [Style.currencyCode?, Style.currencyDisplay?, Style.name]
  currencyCode := by
    intro code hCode
    have hCode : o.styleAsked.currencyCode? = some code := hCode
    rcases h.styleAsked_eq with ⟨-, code', hAsked, hs⟩ | ⟨-, hs | hs⟩
    · rw [hs] at hCode
      obtain rfl := Option.some.inj hCode
      obtain ⟨s, hv, hText⟩ := h.currencyAsked?_eq hAsked
      exact ⟨s, hv, hText, code'.isCurrencyCode⟩
    · rw [hs] at hCode
      cases hCode
    · rw [hs] at hCode
      cases hCode
  numberingSystem := by
    show ((o.textOf? .numberingSystem).map String.toLower).isSome = true ↔ _
    rw [Option.isSome_map, h.textOf?_isSome (n := .numberingSystem) rfl]
  numberingSystemType := by
    intro nu hnu
    obtain ⟨s, hs, rfl⟩ := Option.map_eq_some_iff.mp hnu
    have hv := exists_string_of_textOf? hs
    obtain ⟨t, ht, hShape⟩ := h.exists_string (n := .numberingSystem) rfl hv
    obtain rfl := Value.string.inj ht
    obtain ⟨hMin, hMax, hAll⟩ := Subtag.isAlphanum_iff.mp hShape
    have hList : s.toLower.toList = s.toList.map Char.toLower := String.toList_map
    refine ⟨s, hv, rfl, ?_, ?_, ?_⟩
    · rwa [hList, List.length_map]
    · rwa [hList, List.length_map]
    · intro ch hch
      rw [hList] at hch
      obtain ⟨d, hd, rfl⟩ := List.mem_map.mp hch
      exact isLower_toLower (hAll d hd)

/-! ### Entries that no check looks at -/

/-- The second options ask for the same as the first wherever a check looks. -/
structure Agree (o o' : Options) : Prop where
  value : ∀ n, n ≠ .currencyDisplay → o'.value? n = o.value? n
  label : o.wantsCurrency = true → o'.value? .currencyDisplay = o.value? .currencyDisplay

namespace Agree

variable (h : o.Agree o')
include h

theorem textOf? (hn : n ≠ .currencyDisplay) : o'.textOf? n = o.textOf? n := by
  rw [Options.textOf?, h.value n hn, Options.textOf?]

theorem wholeOr (hn : n ≠ .currencyDisplay) (default : Nat) :
    o'.wholeOr n default = o.wholeOr n default := by
  rw [Options.wholeOr, h.value n hn, Options.wholeOr]

theorem keywordOr {α : Type} [Keyword α] (hn : n ≠ .currencyDisplay) (default : α) :
    o'.keywordOr n default = o.keywordOr n default := by
  rw [Options.keywordOr, h.textOf? hn, Options.keywordOr]

theorem wantsCurrency : o'.wantsCurrency = o.wantsCurrency := by
  rw [Options.wantsCurrency, h.textOf? (by simp), Options.wantsCurrency]

theorem rule (n : OptionName) : n.rule o' = n.rule o := by
  cases n with
  | currencyDisplay => rw [OptionName.rule, OptionName.rule, h.wantsCurrency]
  | maximumFractionDigits => rw [OptionName.rule, OptionName.rule, h.wholeOr (by simp)]
  | maximumSignificantDigits => rw [OptionName.rule, OptionName.rule, h.wholeOr (by simp)]
  | _ => rfl

theorem fault? (n : OptionName) : o'.fault? n = o.fault? n := by
  by_cases hn : n = .currencyDisplay
  · subst hn
    by_cases hw : o.wantsCurrency = true
    · rw [Options.fault?, h.label hw, h.rule, Options.fault?]
    · have hw := Bool.eq_false_iff.mpr hw
      rw [fault?_currencyDisplay_of_not_wantsCurrency hw,
        fault?_currencyDisplay_of_not_wantsCurrency (h.wantsCurrency.trans hw)]
  · rw [Options.fault?, h.value n hn, h.rule, Options.fault?]

theorem faults : o'.faults = o.faults := by
  simp only [Options.faults, laterFaults, missing?, h.fault?, h.wantsCurrency,
    h.value .currency (by simp)]

theorem styleAsked : o'.styleAsked = o.styleAsked := by
  rw [Options.styleAsked, Options.styleAsked, h.keywordOr (by simp), currencyAsked?, currencyAsked?,
    h.textOf? (by simp)]
  cases hName : o.keywordOr .style StyleName.decimal with
  | decimal => rfl
  | percent => rfl
  | currency =>
    have hLabel := h.label (wantsCurrency_iff.mpr hName)
    have hDisplay : o'.keywordOr .currencyDisplay CurrencyDisplay.symbol =
        o.keywordOr .currencyDisplay CurrencyDisplay.symbol := by
      rw [Options.keywordOr, Options.textOf?, hLabel, Options.keywordOr, Options.textOf?]
    rw [hDisplay]

theorem asked : o'.asked = o.asked := by
  have hGrouping : o'.truth "useGrouping" true = o.truth "useGrouping" true := by
    have hValue : o'.given? "useGrouping" = o.given? "useGrouping" := h.value .useGrouping (by simp)
    rw [truth, hValue, truth]
  simp only [Options.asked, fractionAsked, significantAsked?, h.styleAsked, hGrouping,
    h.wholeOr (n := .minimumIntegerDigits) (by simp),
    h.wholeOr (n := .minimumFractionDigits) (by simp),
    h.wholeOr (n := .maximumFractionDigits) (by simp),
    h.wholeOr (n := .minimumSignificantDigits) (by simp),
    h.wholeOr (n := .maximumSignificantDigits) (by simp),
    h.value .minimumSignificantDigits (by simp), h.value .maximumSignificantDigits (by simp),
    h.keywordOr (n := .localeMatcher) (by simp), h.textOf? (n := .numberingSystem) (by simp)]

/-- Options that agree wherever a check looks have the same outcome. -/
theorem validate : o'.validate = o.validate := by
  rw [validate_eq, h.faults, h.asked, validate_eq]

end Agree

/-- No check looks at the entry: it is null, or under the name of no option, or the label of a
currency under another style. -/
def Idle (o : Options) (name : String) (v : Value) : Prop :=
  v.isNull = true ∨ (∀ n : OptionName, n.text ≠ name) ∨
    (name = OptionName.currencyDisplay.text ∧ o.wantsCurrency = false)

theorem text_injective {n n' : OptionName} (h : n.text = n'.text) : n = n' := by
  cases n <;> cases n' <;> first | rfl | exact absurd h (by decide)

theorem agree_filter {keep : String → Value → Bool}
    (h : ∀ name v, o[name]? = some v → keep name v = false → o.Idle name v) :
    o.Agree (o.filter keep) := by
  have hValue : ∀ n, (n = .currencyDisplay → o.wantsCurrency = true) →
      value? (o.filter keep) n = o.value? n := by
    intro n hn
    rw [value?, given?, Std.TreeMap.getElem?_filter', value?, given?]
    cases hv : o[n.text]? with
    | none => rfl
    | some v =>
      by_cases hKeep : keep n.text v = true
      · rw [Option.filter_some, if_pos hKeep]
      · rw [Option.filter_some, if_neg hKeep]
        rcases h n.text v hv (Bool.eq_false_iff.mpr hKeep) with hNull | hName | ⟨hName, hw⟩
        · simp [Option.filter, hNull]
        · exact absurd rfl (hName n)
        · rw [hn (text_injective hName)] at hw
          cases hw
  exact ⟨fun n hn => hValue n fun he => absurd he hn, fun hw => hValue _ fun _ => hw⟩

/-- **The valid options are those that pass their checks**, and the configuration that comes of them
is what they ask for.  Leaving out entries that no check looks at changes no outcome. -/
theorem validate_valid (o : Options) :
    ((∃ c, o.validate = .ok c) ↔ o.IsValid) ∧ (∀ c, o.validate = .ok c → o.Yields c) ∧
      ∀ keep : String → Value → Bool,
        (∀ name v, o[name]? = some v → keep name v = false → o.Idle name v) →
          Options.validate (o.filter keep) = o.validate := by
  refine ⟨?_, ?_, ?_⟩
  · simp only [validate_eq_ok_iff, exists_and_left, exists_eq', and_true]
  · intro c hc
    obtain ⟨h, rfl⟩ := validate_eq_ok_iff.mp hc
    exact yields_asked h
  · intro keep h
    exact (agree_filter h).validate

/-- The currency style on its own, as the options that a caller gives. -/
def currencyStyleAlone : Options :=
  .ofList [("style", Value.string "currency")]

/-- That the options which are given are as their rules say is not enough: the currency style asks
for a currency. -/
theorem currencyStyleAlone_not_ok :
    ¬((∃ c, currencyStyleAlone.validate = .ok c) ↔
      ∀ n : OptionName, ∀ v ∈ currencyStyleAlone.value? n,
        (n.rule currencyStyleAlone).admits v = true) := by
  intro h
  have hAdmits : ∀ n : OptionName, ∀ v ∈ currencyStyleAlone.value? n,
      (n.rule currencyStyleAlone).admits v = true := by
    intro n v hv
    cases n with
    | style =>
      obtain rfl : .string "currency" = v := Option.some.inj hv
      decide
    | _ => cases hv
  obtain ⟨c, hc⟩ := h.mpr hAdmits
  have hCurrency := (validate_eq_ok_iff.mp hc).1.currency (by decide)
  exact absurd hCurrency (by decide)

end Options

end Numeral
