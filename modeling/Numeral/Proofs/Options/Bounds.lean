import Numeral.Options.Validation
import Numeral.Proofs.Binary64.Rational
import Numeral.Proofs.Outcome

/-!
# Bounds of checked options

A number that passes a check lies within the bounds of the check, and so does every default.  Hence
the digit counts of a checked configuration are those that a number can be shown with
(`bounded_of_validate`).
-/

namespace Numeral

namespace Options

theorem count_bounds {o : Options} {name : String} {min max default n : Nat}
    (h : o.count name min max default = .ok n) (hMin : min ≤ default) (hMax : default ≤ max) :
    min ≤ n ∧ n ≤ max := by
  rw [count] at h
  split at h
  · obtain rfl : default = n := Except.ok.inj h
    exact ⟨hMin, hMax⟩
  · rename_i v hv
    split at h
    · rename_i k hk
      obtain rfl : k = n := Except.ok.inj h
      obtain ⟨x, -, hx⟩ := Option.bind_eq_some_iff.mp hk
      exact Binary64.wholeWithin?_bounds hx
    · cases h

theorem fractionDigits_bounds {o : Options} {range : DigitRange}
    (h : o.fractionDigits = .ok range) : range.minimum ≤ range.maximum ∧ range.maximum ≤ 20 := by
  obtain ⟨minimum, hMinimum, h⟩ := bind_eq_ok_iff.mp h
  obtain ⟨maximum, hMaximum, h⟩ := bind_eq_ok_iff.mp h
  obtain rfl := pure_eq_ok_iff.mp h
  have hb := count_bounds hMinimum (by omega) (by omega)
  show minimum ≤ maximum ∧ maximum ≤ 20
  exact count_bounds hMaximum (by omega) (by omega)

theorem significantDigits_bounds {o : Options} {range : DigitRange}
    (h : o.significantDigits = .ok (some range)) :
    1 ≤ range.minimum ∧ range.minimum ≤ range.maximum ∧ range.maximum ≤ 21 := by
  unfold significantDigits at h
  split at h
  · cases h
  · obtain ⟨minimum, hMinimum, h⟩ := bind_eq_ok_iff.mp h
    obtain ⟨maximum, hMaximum, h⟩ := bind_eq_ok_iff.mp h
    obtain rfl := Option.some.inj (pure_eq_ok_iff.mp h)
    have hb := count_bounds hMinimum (by omega) (by omega)
    show 1 ≤ minimum ∧ minimum ≤ maximum ∧ maximum ≤ 21
    exact ⟨hb.1, count_bounds hMaximum (by omega) (by omega)⟩

end Options

/-- The digit counts of the configuration are those that a number can be shown with. -/
structure Config.Bounded (c : Config) : Prop where
  integer : 1 ≤ c.minimumIntegerDigits ∧ c.minimumIntegerDigits ≤ 21
  fraction : c.fractionDigits.minimum ≤ c.fractionDigits.maximum ∧ c.fractionDigits.maximum ≤ 20
  significant : ∀ range ∈ c.significantDigits,
    1 ≤ range.minimum ∧ range.minimum ≤ range.maximum ∧ range.maximum ≤ 21

theorem bounded_of_validate {o : Options} {config : Config} (h : o.validate = .ok config) :
    config.Bounded := by
  obtain ⟨matcher, -, h⟩ := bind_eq_ok_iff.mp h
  obtain ⟨style, -, h⟩ := bind_eq_ok_iff.mp h
  obtain ⟨integer, hInteger, h⟩ := bind_eq_ok_iff.mp h
  obtain ⟨fraction, hFraction, h⟩ := bind_eq_ok_iff.mp h
  obtain ⟨significant, hSignificant, h⟩ := bind_eq_ok_iff.mp h
  obtain ⟨numberingSystem, -, h⟩ := bind_eq_ok_iff.mp h
  obtain rfl := pure_eq_ok_iff.mp h
  refine ⟨Options.count_bounds hInteger (by omega) (by omega),
    Options.fractionDigits_bounds hFraction, fun range hr => ?_⟩
  obtain rfl := Option.mem_def.mp hr
  exact Options.significantDigits_bounds hSignificant

end Numeral
