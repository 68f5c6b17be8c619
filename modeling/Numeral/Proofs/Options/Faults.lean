import Numeral.Proofs.Options.Rules

/-!
# The first fault of options

The rules of the options are checked in one order, and with them that there is a currency under the
currency style.  Checking options gives the first fault that is found in this order, and else the
configuration that they ask for (`validate_eq`).
-/

namespace Numeral

/-- The first fault of checks in a row. -/
def firstFault {ε : Type} (faults : List (Option ε)) : Option ε := faults.findSome? id

theorem firstFault_nil {ε : Type} : firstFault ([] : List (Option ε)) = none := rfl

theorem firstFault_cons {ε : Type} (fault : Option ε) (faults : List (Option ε)) :
    firstFault (fault :: faults) = fault.or (firstFault faults) :=
  findSome?_cons_eq_or id fault faults

theorem firstFault_singleton {ε : Type} (fault : Option ε) : firstFault [fault] = fault := by
  rw [firstFault_cons]
  exact fault.or_none

theorem firstFault_append {ε : Type} (faults faults' : List (Option ε)) :
    firstFault (faults ++ faults') = (firstFault faults).or (firstFault faults') :=
  List.findSome?_append

theorem firstFault_map {ε ε' : Type} (f : ε → ε') (faults : List (Option ε)) :
    firstFault (faults.map (Option.map f)) = (firstFault faults).map f := by
  induction faults with
  | nil => rfl
  | cons fault faults ih =>
    rw [List.map_cons, firstFault_cons, firstFault_cons, ih]
    cases fault with
    | none => rfl
    | some e => rfl

theorem firstFault_eq_none_iff {ε : Type} {faults : List (Option ε)} :
    firstFault faults = none ↔ ∀ fault ∈ faults, fault = none := List.findSome?_eq_none_iff

theorem mem_of_firstFault {ε : Type} {faults : List (Option ε)} {e : ε}
    (h : firstFault faults = some e) : some e ∈ faults := by
  obtain ⟨fault, hMem, rfl⟩ := List.exists_of_findSome?_eq_some h
  exact hMem

namespace Options

/-- The fault of the currency style without a currency. -/
def missing? (o : Options) : Option OptionError :=
  if o.wantsCurrency ∧ o.value? .currency = none then
    some (.missing "currency" "style \"currency\"")
  else none

/-- The checks of the options behind that of the matcher, in their order. -/
def laterFaults (o : Options) : List (Option OptionError) :=
  [o.fault? .style, o.fault? .currency, o.missing?, o.fault? .currencyDisplay,
    o.fault? .minimumIntegerDigits, o.fault? .minimumFractionDigits,
    o.fault? .maximumFractionDigits, o.fault? .minimumSignificantDigits,
    o.fault? .maximumSignificantDigits, o.fault? .numberingSystem]

/-- The checks of the options, in their order. -/
def faults (o : Options) : List (Option OptionError) := o.fault? .localeMatcher :: o.laterFaults

/-! ### What options without a fault ask for -/

/-- The currency that is asked for. -/
def currencyAsked? (o : Options) : Option CurrencyCode :=
  (o.textOf? .currency).bind CurrencyCode.parse?

/-- The style that is asked for. -/
def styleAsked (o : Options) : Style :=
  match o.keywordOr .style StyleName.decimal, o.currencyAsked? with
  | .currency, some code => .currency code (o.keywordOr .currencyDisplay .symbol)
  | .percent, _ => .percent
  | _, _ => .decimal

/-- The bounds on the digits after the point that are asked for. -/
def fractionAsked (o : Options) : DigitRange :=
  ⟨o.wholeOr .minimumFractionDigits 0,
    o.wholeOr .maximumFractionDigits (max 3 (o.wholeOr .minimumFractionDigits 0))⟩

/-- The bounds on the significant digits, if one of the two is asked for. -/
def significantAsked? (o : Options) : Option DigitRange :=
  if o.value? .minimumSignificantDigits = none ∧ o.value? .maximumSignificantDigits = none then none
  else some ⟨o.wholeOr .minimumSignificantDigits 1, o.wholeOr .maximumSignificantDigits 21⟩

/-- The configuration that the options ask for. -/
def asked (o : Options) : Config where
  style := o.styleAsked
  minimumIntegerDigits := o.wholeOr .minimumIntegerDigits 1
  fractionDigits := o.fractionAsked
  significantDigits := o.significantAsked?
  useGrouping := o.truth "useGrouping" true
  localeMatcher := o.keywordOr .localeMatcher .bestFit
  numberingSystem := (o.textOf? .numberingSystem).map String.toLower

variable {o : Options}

theorem localeMatcher_eq (o : Options) :
    o.localeMatcher = outcome (o.fault? .localeMatcher) (o.keywordOr .localeMatcher .bestFit) :=
  keyword_eq (n := .localeMatcher) rfl .bestFit

theorem currencyCode?_eq (o : Options) :
    o.currencyCode? = outcome (o.fault? .currency) o.currencyAsked? := by
  refine text?_bind_eq (n := .currency) (b := fun s? => s?.bind CurrencyCode.parse?) rfl rfl ?_ ?_
  · intro s hs
    obtain ⟨code, hCode⟩ := Option.isSome_iff_exists.mp ((CurrencyCode.isSome_parse? s).trans hs)
    simp only [Option.bind_some, hCode]
    rfl
  · intro s hs
    have hCode := Option.isNone_iff_eq_none.mp
      (Option.isSome_eq_false_iff.mp ((CurrencyCode.isSome_parse? s).trans hs))
    simp only [hCode]
    rfl

theorem numberingSystem?_eq (o : Options) :
    o.numberingSystem? =
      outcome (o.fault? .numberingSystem) ((o.textOf? .numberingSystem).map String.toLower) := by
  refine text?_bind_eq (n := .numberingSystem) (b := Option.map String.toLower) rfl rfl ?_ ?_
  · intro s hs
    exact if_pos hs
  · intro s hs
    exact if_neg (Bool.eq_false_iff.mp hs)

theorem wantsCurrency_iff :
    o.wantsCurrency = true ↔ o.keywordOr .style StyleName.decimal = .currency := by
  rw [wantsCurrency, keywordOr, beq_iff_eq]
  cases o.textOf? .style with
  | none => simp
  | some s =>
    rw [Option.bind_some]
    constructor
    · intro h
      rw [Option.some.inj h]
      rfl
    · intro h
      cases hs : (Keyword.ofWord? s : Option StyleName) with
      | none =>
        rw [hs] at h
        cases h
      | some a =>
        rw [hs] at h
        obtain rfl : a = .currency := h
        have hFound : (Keyword.all (α := StyleName)).find? (Keyword.word · == s) = some .currency :=
          hs
        have hWord := List.find?_some hFound
        simp only [beq_iff_eq] at hWord
        rw [← hWord]
        rfl

/-- Under another style than that of a currency the label of the currency has no fault. -/
theorem fault?_currencyDisplay_of_not_wantsCurrency (h : o.wantsCurrency = false) :
    o.fault? .currencyDisplay = none := by
  rw [fault?_eq_none_iff]
  intro v _
  rw [OptionName.rule, h, if_neg Bool.false_ne_true]
  rfl

theorem missing?_of_not_wantsCurrency (h : o.wantsCurrency = false) : o.missing? = none := by
  rw [missing?, h, if_neg]
  rintro ⟨h, -⟩
  cases h

/-- An option that is given with a good value has the currency that it spells. -/
theorem currencyAsked?_eq_none_iff (h : o.fault? .currency = none) :
    o.currencyAsked? = none ↔ o.value? .currency = none := by
  rw [currencyAsked?, textOf?]
  cases hv : o.value? .currency with
  | none => simp
  | some v =>
    have hAdmits : v.asString?.any CurrencyCode.isWellFormed = true := fault?_eq_none_iff.mp h v hv
    rw [Option.bind_some]
    cases hs : v.asString? with
    | none =>
      rw [hs] at hAdmits
      cases hAdmits
    | some s =>
      rw [hs] at hAdmits
      have hCode := (CurrencyCode.isSome_parse? s).trans hAdmits
      rw [Option.bind_some, ← Option.isNone_iff_eq_none, ← Option.not_isSome, hCode]
      simp

theorem style_eq (o : Options) :
    o.style = outcome
      (firstFault [o.fault? .style, o.fault? .currency, o.missing?, o.fault? .currencyDisplay])
      o.styleAsked := by
  have hStyle := keyword_eq (o := o) (n := .style) rfl StyleName.decimal
  rw [style]
  show (o.keyword OptionName.style.text StyleName.decimal >>= _) = _
  rw [hStyle, firstFault_cons]
  apply outcome_bind
  rw [currencyCode?_eq, firstFault_cons]
  cases hCurrency : o.fault? .currency with
  | some e => rfl
  | none =>
    rw [Option.none_or, styleAsked]
    cases hName : o.keywordOr .style StyleName.decimal with
    | decimal =>
      have hw : o.wantsCurrency = false := by
        rw [Bool.eq_false_iff, Ne, wantsCurrency_iff, hName]
        simp
      rw [missing?_of_not_wantsCurrency hw, fault?_currencyDisplay_of_not_wantsCurrency hw]
      rfl
    | percent =>
      have hw : o.wantsCurrency = false := by
        rw [Bool.eq_false_iff, Ne, wantsCurrency_iff, hName]
        simp
      rw [missing?_of_not_wantsCurrency hw, fault?_currencyDisplay_of_not_wantsCurrency hw]
      rfl
    | currency =>
      have hw : o.wantsCurrency = true := wantsCurrency_iff.mpr hName
      have hDisplay := keyword_eq (o := o) (n := .currencyDisplay)
        (by rw [OptionName.rule, if_pos hw]) CurrencyDisplay.symbol
      have hNone := currencyAsked?_eq_none_iff hCurrency
      rw [missing?]
      cases hCode : o.currencyAsked? with
      | none =>
        rw [if_pos ⟨hw, hNone.mp hCode⟩]
        rfl
      | some code =>
        have hGiven : ¬ (o.wantsCurrency = true ∧ o.value? .currency = none) := by
          rintro ⟨-, h⟩
          rw [hNone.mpr h] at hCode
          cases hCode
        rw [if_neg hGiven]
        show (o.keyword OptionName.currencyDisplay.text CurrencyDisplay.symbol >>= _) = _
        rw [hDisplay]
        cases o.fault? .currencyDisplay with
        | none => rfl
        | some e => rfl

theorem fractionDigits_eq (o : Options) :
    o.fractionDigits = outcome
      (firstFault [o.fault? .minimumFractionDigits, o.fault? .maximumFractionDigits])
      o.fractionAsked := by
  have hMin := count_eq (o := o) (n := .minimumFractionDigits) rfl 0
  have hMax := count_eq (o := o) (n := .maximumFractionDigits) rfl
    (max 3 (o.wholeOr .minimumFractionDigits 0))
  rw [fractionDigits]
  show (o.count OptionName.minimumFractionDigits.text 0 20 0 >>= _) = _
  rw [hMin, firstFault_cons]
  apply outcome_bind
  show (o.count OptionName.maximumFractionDigits.text _ _ _ >>= _) = _
  rw [hMax, firstFault_singleton]
  exact outcome_bind_ok rfl

theorem significantDigits_eq (o : Options) :
    o.significantDigits = outcome
      (firstFault [o.fault? .minimumSignificantDigits, o.fault? .maximumSignificantDigits])
      o.significantAsked? := by
  have hMin := count_eq (o := o) (n := .minimumSignificantDigits) rfl 1
  have hMax := count_eq (o := o) (n := .maximumSignificantDigits) rfl 21
  have hGuard : ((o.given? "minimumSignificantDigits").isNone &&
      (o.given? "maximumSignificantDigits").isNone) = true ↔
      o.value? .minimumSignificantDigits = none ∧ o.value? .maximumSignificantDigits = none := by
    rw [Bool.and_eq_true, Option.isNone_iff_eq_none, Option.isNone_iff_eq_none]
    rfl
  rw [significantDigits, significantAsked?]
  by_cases h : o.value? .minimumSignificantDigits = none ∧
      o.value? .maximumSignificantDigits = none
  · rw [if_pos (hGuard.mpr h), if_pos h, fault?_of_not_given h.1, fault?_of_not_given h.2]
    rfl
  · rw [if_neg fun hg => h (hGuard.mp hg), if_neg h]
    show (o.count OptionName.minimumSignificantDigits.text 1 21 1 >>= _) = _
    rw [hMin, firstFault_cons]
    apply outcome_bind
    show (o.count OptionName.maximumSignificantDigits.text _ _ _ >>= _) = _
    rw [hMax, firstFault_singleton]
    exact outcome_bind_ok rfl

/-- **Checking options gives their first fault**, and else what they ask for. -/
theorem validate_eq (o : Options) : o.validate = outcome (firstFault o.faults) o.asked := by
  have hInteger := count_eq (o := o) (n := .minimumIntegerDigits) rfl 1
  have hFaults : firstFault o.faults = (o.fault? .localeMatcher).or
      ((firstFault
          [o.fault? .style, o.fault? .currency, o.missing?, o.fault? .currencyDisplay]).or
        ((o.fault? .minimumIntegerDigits).or
          ((firstFault [o.fault? .minimumFractionDigits, o.fault? .maximumFractionDigits]).or
            ((firstFault
                [o.fault? .minimumSignificantDigits, o.fault? .maximumSignificantDigits]).or
              (o.fault? .numberingSystem))))) := by
    simp only [faults, laterFaults, firstFault_cons, firstFault_nil, Option.or_assoc,
      Option.or_none]
  rw [validate, hFaults, localeMatcher_eq]
  apply outcome_bind
  rw [style_eq]
  apply outcome_bind
  show (o.count OptionName.minimumIntegerDigits.text 1 21 1 >>= _) = _
  rw [hInteger]
  apply outcome_bind
  rw [fractionDigits_eq]
  apply outcome_bind
  rw [significantDigits_eq]
  apply outcome_bind
  rw [numberingSystem?_eq]
  exact outcome_bind_ok rfl

end Options

end Numeral
