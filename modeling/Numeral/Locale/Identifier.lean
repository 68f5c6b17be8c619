import Numeral.Locale.Subtag

/-!
# Language identifiers

A language with an optional script, an optional region and variants, in this order: `zh-Hant-TW`.
Each subtag is kept in its canonical case, and the variants are sorted.
-/

namespace Numeral

/-- A language identifier in canonical form: small letters, but a capital one at the start of the
script and capital letters in the region, and the variants without repetition. -/
structure Identifier where
  language : Subtag
  script : Option Subtag
  region : Option Subtag
  variants : List Subtag
  deriving DecidableEq, Repr

namespace Identifier

/-- The first subtag, if it is of a class, and the subtags after it. -/
def takeIf (p : Subtag → Bool) : List Subtag → Option Subtag × List Subtag
  | [] => (none, [])
  | s :: ss => if p s then (some s, ss) else (none, s :: ss)

/-- Reads variants as far as there are any, and adds them to those read before.  A variant that
comes a second time is an error. -/
def scanVariants? (before : List Subtag) : List Subtag → Option (List Subtag × List Subtag)
  | [] => some (before, [])
  | s :: ss =>
    if !s.isVariant then some (before, s :: ss)
    else if s.lower ∈ before then none
    else scanVariants? (Subtag.insertBy id s.lower before) ss

/-- Reads a language identifier from the start of a list of subtags, as far as they fit, and gives
the subtags after it. -/
def scan? : List Subtag → Option (Identifier × List Subtag)
  | [] => none
  | s :: ss =>
    if !s.isLanguage then none
    else
      let (script, ss) := takeIf Subtag.isScript ss
      let (region, ss) := takeIf Subtag.isRegion ss
      (scanVariants? [] ss).map fun (variants, ss) =>
        (⟨s.lower, script.map Subtag.title, region.map Subtag.upper, variants⟩, ss)

def subtags (t : Identifier) : List Subtag :=
  t.language :: t.script.toList ++ t.region.toList ++ t.variants

theorem length_takeIf_le (p : Subtag → Bool) (ss : List Subtag) :
    (takeIf p ss).2.length ≤ ss.length := by
  cases ss with
  | nil => simp [takeIf]
  | cons s ss =>
    simp only [takeIf]
    split <;> simp

theorem length_le_of_scanVariants? {before ss vs rest : List Subtag}
    (h : scanVariants? before ss = some (vs, rest)) : rest.length ≤ ss.length := by
  induction ss generalizing before with
  | nil =>
    simp only [scanVariants?, Option.some.injEq, Prod.mk.injEq] at h
    simp [← h.2]
  | cons s ss ih =>
    unfold scanVariants? at h
    split at h
    · simp only [Option.some.injEq, Prod.mk.injEq] at h
      simp [← h.2]
    · split at h
      · cases h
      · exact Nat.le_succ_of_le (ih h)

/-- Reading an identifier takes at least one subtag. -/
theorem length_lt_of_scan? {ss rest : List Subtag} {t : Identifier}
    (h : scan? ss = some (t, rest)) : rest.length < ss.length := by
  cases ss with
  | nil => cases h
  | cons s ss =>
    simp only [scan?] at h
    split at h
    · cases h
    · simp only [Option.map_eq_some_iff, Prod.exists] at h
      obtain ⟨vs, rest', hv, he⟩ := h
      simp only [Prod.mk.injEq] at he
      have h1 := length_takeIf_le Subtag.isScript ss
      have h2 := length_takeIf_le Subtag.isRegion (takeIf Subtag.isScript ss).2
      have h3 := length_le_of_scanVariants? hv
      simp only [List.length_cons, ← he.2]
      omega

end Identifier

end Numeral
