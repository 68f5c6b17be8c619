import Numeral.Proofs.Locale.Extension

/-!
# Values of keywords

The value of a keyword that has been read from a tag consists of types, the word `true` standing for
no value.  Behind a base name and the key `nu` it is read again (`parse?_append_keyword`).
-/

namespace Numeral

/-- The text consists of types, at least one. -/
def IsKeywordValue (s : String) : Prop :=
  ∃ rs : List Subtag, rs ≠ [] ∧ (∀ r ∈ rs, r.isType = true) ∧ Subtag.join rs = s

namespace LanguageTag

variable {t : LanguageTag}

/-- The value of a keyword of a tag that has been read consists of types. -/
theorem isKeywordValue_of_keyword? {s key value : String} (ht : parse? s = some t)
    (h : t.keyword? key = some value) : IsKeywordValue value := by
  have hCanonical := isCanonical_extension_of_parse? ht
  rw [keyword?] at h
  split at h
  · obtain ⟨parts, hParts, rfl⟩ := Option.map_eq_some_iff.mp h
    obtain ⟨l₁, l₂, hList, -⟩ := List.lookup_eq_some_iff.mp hParts
    have hMem : (Subtag.lower key.toList, parts) ∈ t.extension.keywords := by
      rw [hList]
      simp
    by_cases hEmpty : parts.isEmpty = true
    · rw [if_pos hEmpty]
      exact ⟨[['t', 'r', 'u', 'e']], by simp, by decide, rfl⟩
    · rw [if_neg hEmpty]
      exact ⟨parts, fun h => hEmpty (List.isEmpty_iff.mpr h),
        fun r hr => ((hCanonical.keywords _ hMem).2 r hr).1, rfl⟩
  · cases h

/-- **The value of a keyword is read again** behind a base name and the key `nu`. -/
theorem parse?_append_keyword (ht : t.id.IsCanonical) {value : String} (h : IsKeywordValue value) :
    ∃ e, parse? (t.baseName ++ "-u-nu-" ++ value) = some ⟨t.id, e⟩ := by
  obtain ⟨rs, hne, hrs, rfl⟩ := h
  have hparts : parts (Subtag.join rs) = rs :=
    parts_join hne fun r hr => (Subtag.isAlphanum_iff.mp (hrs r hr)).2.2
  exact ⟨_, parse?_append_types ht hparts hrs⟩

end LanguageTag

end Numeral
