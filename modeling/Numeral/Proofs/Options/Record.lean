import Numeral.Formatter.Resolved
import Numeral.Proofs.Locale.Subtag
import Numeral.Proofs.Options.Bounds

/-!
# Records of checked options

The record of an effective configuration asks for that configuration again: every field of it
passes the check of its option and is read as what it was (`validate_toOptions`).
-/

namespace Numeral

/-! ### Single options -/

theorem wholeWithin?_ofNat {n min max : Nat} (hn : n ≤ 21) (hMin : min ≤ n) (hMax : n ≤ max) :
    (Value.ofNat n).toNumber?.bind (Binary64.wholeWithin? min max) = some n := by
  have hAll : ∀ n : Nat, n ≤ 21 → (Binary64.ofInt n).wholeWithin? n n = some n := by
    decide +kernel
  exact Binary64.wholeWithin?_mono (hAll n hn) hMin hMax

namespace Options

variable {o : Options} {name : String}

theorem count_of_given {n min max default : Nat} (h : o.given? name = some (Value.ofNat n))
    (hn : n ≤ 21) (hMin : min ≤ n) (hMax : n ≤ max) : o.count name min max default = .ok n := by
  rw [count, h]
  simp only []
  rw [wholeWithin?_ofNat hn hMin hMax]

theorem keyword_of_given {α : Type} [Keyword α] {a : α} (default : α)
    (hword : Keyword.ofWord? (Keyword.word a) = some a)
    (h : o.given? name = some (.string (Keyword.word a))) : o.keyword name default = .ok a := by
  rw [keyword, h]
  simp only [Value.asString?, Option.bind_some, hword]

theorem text?_of_given {s : String} (h : o.given? name = some (.string s)) :
    o.text? name = .ok (some s) := by
  rw [text?, h]
  rfl

end Options

theorem CurrencyCode.parse?_text (code : CurrencyCode) : parse? code.text = some code := by
  have hupper : code.text.toUpper = code.text := by
    apply String.toList_injective
    rw [String.toUpper, String.toList_map]
    refine (List.map_congr_left fun c hc => ?_).trans (List.map_id _)
    have hc := code.isCurrencyCode.2 c hc
    have hAll : ∀ c : Char, c.isAlphanum = true → c.isUpper = true → c.toUpper = c :=
      fun c hc => of_isAlphanum (P := fun c => c.isUpper = true → c.toUpper = c) (by decide) hc
    exact hAll c (isAlphanum_of_isAlpha (isAlpha_of_isUpper hc)) hc
  have hcode : IsCurrencyCode code.text.toUpper := by
    rw [hupper]
    exact code.isCurrencyCode
  rw [parse?, dif_pos hcode]
  cases code
  simp only [hupper]

/-! ### The whole record -/

/-- A map made of entries with distinct keys holds each of them. -/
theorem getElem?_ofList_eq_lookup {entries : List (String × Value)}
    (hd : (entries.map Prod.fst).Nodup) (key : String) :
    (Std.TreeMap.ofList entries)[key]? = entries.lookup key := by
  have hDistinct : entries.Pairwise fun a b => ¬ compare a.1 b.1 = .eq := by
    refine (List.pairwise_map.mp hd).imp ?_
    intro a b hab h
    exact hab (Std.LawfulEqCmp.eq_of_compare h)
  cases hl : entries.lookup key with
  | none =>
    apply Std.TreeMap.getElem?_ofList_of_contains_eq_false
    rw [Bool.eq_false_iff]
    intro hc
    obtain ⟨⟨k, v⟩, hm, rfl⟩ := List.mem_map.mp (List.contains_iff_mem.mp hc)
    exact absurd (List.lookup_eq_none_iff.mp hl (k, v) hm) (by simp)
  | some v =>
    obtain ⟨l₁, l₂, rfl, -⟩ := List.lookup_eq_some_iff.mp hl
    exact Std.TreeMap.getElem?_ofList_of_mem Std.ReflCmp.compare_self hDistinct (by simp)

namespace Resolved

theorem nodup_toRecord (r : Resolved) : (r.toRecord.map Prod.fst).Nodup := by
  rw [toRecord]
  cases r.style with
  | decimal =>
    cases r.significantDigits with
    | none => simp [currencyFields, significantFields]
    | some range => simp [currencyFields, significantFields]
  | percent =>
    cases r.significantDigits with
    | none => simp [currencyFields, significantFields]
    | some range => simp [currencyFields, significantFields]
  | currency code display =>
    cases r.significantDigits with
    | none => simp [currencyFields, significantFields]
    | some range => simp [currencyFields, significantFields]

theorem given?_toOptions (r : Resolved) (name : String) :
    r.toOptions.given? name = (r.toRecord.lookup name).filter fun v => !v.isNull := by
  rw [Options.given?, toOptions, getElem?_ofList_eq_lookup r.nodup_toRecord]

variable (r : Resolved)

theorem localeMatcher_toOptions : r.toOptions.localeMatcher = .ok .bestFit := by
  have h : r.toOptions.given? "localeMatcher" = none := by
    rw [given?_toOptions, toRecord]
    cases r.style <;> cases r.significantDigits <;> rfl
  rw [Options.localeMatcher, Options.keyword, h]

theorem given?_style :
    r.toOptions.given? "style" = some (.string (Keyword.word r.style.name)) := by
  rw [given?_toOptions]
  rfl

/-- Under the styles that have no currency the record has none. -/
theorem text?_currency (hs : r.style.currencyCode? = none) :
    r.toOptions.text? "currency" = .ok none := by
  have h : r.toOptions.given? "currency" = none := by
    rw [given?_toOptions, toRecord]
    cases hstyle : r.style with
    | decimal => cases r.significantDigits <;> rfl
    | percent => cases r.significantDigits <;> rfl
    | currency code display =>
      rw [hstyle] at hs
      cases hs
  rw [Options.text?, h]

theorem currencyCode?_toOptions : r.toOptions.currencyCode? = .ok r.style.currencyCode? := by
  cases hs : r.style with
  | decimal =>
    rw [Options.currencyCode?, r.text?_currency (by rw [hs]; rfl)]
    rfl
  | percent =>
    rw [Options.currencyCode?, r.text?_currency (by rw [hs]; rfl)]
    rfl
  | currency code display =>
    have h : r.toOptions.given? "currency" = some (.string code.text) := by
      rw [given?_toOptions, toRecord, hs]
      rfl
    rw [Options.currencyCode?, Options.text?_of_given h]
    simp only [bind, Except.bind, CurrencyCode.parse?_text]
    rfl

theorem style_toOptions : r.toOptions.style = .ok r.style := by
  rw [Options.style, Options.keyword_of_given _ (StyleName.ofWord?_word _) r.given?_style,
    currencyCode?_toOptions]
  cases hs : r.style with
  | decimal => rfl
  | percent => rfl
  | currency code display =>
    have h : r.toOptions.given? "currencyDisplay" = some (.string (Keyword.word display)) := by
      rw [given?_toOptions, toRecord, hs]
      rfl
    have hd := Options.keyword_of_given .symbol (CurrencyDisplay.ofWord?_word display) h
    show (r.toOptions.keyword "currencyDisplay" CurrencyDisplay.symbol >>= _) = _
    rw [hd]
    rfl

theorem given?_count {name : String} {n : Nat} (h : r.toRecord.lookup name = some (.ofNat n)) :
    r.toOptions.given? name = some (.ofNat n) := by
  rw [given?_toOptions, h]
  rfl

theorem integerDigits_toOptions
    (h : 1 ≤ r.minimumIntegerDigits ∧ r.minimumIntegerDigits ≤ 21) :
    r.toOptions.count "minimumIntegerDigits" 1 21 1 = .ok r.minimumIntegerDigits := by
  have hg : r.toRecord.lookup "minimumIntegerDigits" = some (.ofNat r.minimumIntegerDigits) := by
    rw [toRecord]
    cases r.style <;> rfl
  exact Options.count_of_given (r.given?_count hg) h.2 h.1 h.2

theorem fractionDigits_toOptions
    (h : r.fractionDigits.minimum ≤ r.fractionDigits.maximum ∧ r.fractionDigits.maximum ≤ 20) :
    r.toOptions.fractionDigits = .ok r.fractionDigits := by
  have hMin : r.toRecord.lookup "minimumFractionDigits" =
      some (.ofNat r.fractionDigits.minimum) := by
    rw [toRecord]
    cases r.style <;> rfl
  have hMax : r.toRecord.lookup "maximumFractionDigits" =
      some (.ofNat r.fractionDigits.maximum) := by
    rw [toRecord]
    cases r.style <;> rfl
  rw [Options.fractionDigits, Options.count_of_given (r.given?_count hMin) (by omega) (by omega)
    (by omega)]
  show (r.toOptions.count _ r.fractionDigits.minimum _ _ >>= _) = _
  rw [Options.count_of_given (r.given?_count hMax) (by omega) h.1 h.2]
  rfl

theorem significantDigits_toOptions (h : ∀ range ∈ r.significantDigits,
      1 ≤ range.minimum ∧ range.minimum ≤ range.maximum ∧ range.maximum ≤ 21) :
    r.toOptions.significantDigits = .ok r.significantDigits := by
  cases hs : r.significantDigits with
  | none =>
    have hMin : r.toOptions.given? "minimumSignificantDigits" = none := by
      rw [given?_toOptions, toRecord, hs]
      cases r.style <;> rfl
    have hMax : r.toOptions.given? "maximumSignificantDigits" = none := by
      rw [given?_toOptions, toRecord, hs]
      cases r.style <;> rfl
    rw [Options.significantDigits, hMin, hMax]
    rfl
  | some range =>
    obtain ⟨h1, h2, h3⟩ := h range hs
    have hMin : r.toRecord.lookup "minimumSignificantDigits" = some (.ofNat range.minimum) := by
      rw [toRecord, hs]
      cases r.style <;> rfl
    have hMax : r.toRecord.lookup "maximumSignificantDigits" = some (.ofNat range.maximum) := by
      rw [toRecord, hs]
      cases r.style <;> rfl
    have hMin := r.given?_count hMin
    have hMax := r.given?_count hMax
    unfold Options.significantDigits
    rw [if_neg (by simp [hMin]), Options.count_of_given hMin (by omega) h1 (by omega)]
    show (r.toOptions.count _ range.minimum _ _ >>= _) = _
    rw [Options.count_of_given hMax h3 h2 h3]
    rfl

theorem useGrouping_toOptions : r.toOptions.truth "useGrouping" true = r.useGrouping := by
  have h : r.toOptions.given? "useGrouping" = some (.bool r.useGrouping) := by
    rw [given?_toOptions, toRecord]
    cases r.style <;> rfl
  rw [Options.truth, h]
  rfl

theorem numberingSystem?_toOptions (htype : isUnicodeType r.numberingSystem = true)
    (hlower : r.numberingSystem.toLower = r.numberingSystem) :
    r.toOptions.numberingSystem? = .ok (some r.numberingSystem) := by
  have h : r.toOptions.given? "numberingSystem" = some (.string r.numberingSystem) := by
    rw [given?_toOptions]
    rfl
  rw [Options.numberingSystem?, Options.text?_of_given h]
  show (if isUnicodeType r.numberingSystem then
      (pure (some r.numberingSystem.toLower) : Except OptionError (Option String))
    else _) = _
  rw [if_pos htype, hlower]
  rfl

end Resolved

/-- The configuration with the usual matcher and a numbering system that is asked for. -/
def Config.recorded (config : Config) (nu : String) : Config :=
  { config with localeMatcher := .bestFit, numberingSystem := some nu }

/-- **The record of a checked configuration asks for it again**, with the numbering system that is
reported. -/
theorem validate_toOptions {config : Config} (hc : config.Bounded) {reported : Reported}
    (htype : isUnicodeType reported.numberingSystem = true)
    (hlower : reported.numberingSystem.toLower = reported.numberingSystem) :
    (Resolved.ofConfig config reported).toOptions.validate =
      .ok (config.recorded reported.numberingSystem) := by
  have hnu := (Resolved.ofConfig config reported).numberingSystem?_toOptions htype hlower
  rw [Options.validate, Resolved.localeMatcher_toOptions, Resolved.style_toOptions,
    Resolved.integerDigits_toOptions _ hc.integer, Resolved.fractionDigits_toOptions _ hc.fraction,
    Resolved.significantDigits_toOptions _ hc.significant, Resolved.useGrouping_toOptions, hnu]
  rfl

end Numeral
