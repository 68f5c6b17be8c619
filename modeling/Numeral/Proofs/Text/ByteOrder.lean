import Mathlib.Data.List.Basic
import Mathlib.Data.String.Basic
import Mathlib.Tactic.SplitIfs

/-!
# The order of texts

Texts are compared character by character.  That is the order of their bytes in UTF-8
(`bytes_lt_iff`).
-/

namespace Numeral

/-- The bytes of a text in UTF-8. -/
def bytes (s : String) : List UInt8 := s.toByteArray.data.toList

theorem bytes_eq (s : String) : bytes s = s.toList.flatMap String.utf8EncodeChar := by
  rw [bytes, ← String.utf8Encode_toList, List.utf8Encode, List.toList_data_toByteArray]

/-- A smaller character has smaller bytes, whatever follows them. -/
theorem utf8EncodeChar_append_lt {c d : Char} (h : c < d) (bs bs' : List UInt8) :
    String.utf8EncodeChar c ++ bs < String.utf8EncodeChar d ++ bs' := by
  have hcd : c.val.toNat < d.val.toNat := h
  have hd : d.val.toNat < 1114112 := by
    rcases d.valid with hd | ⟨-, hd⟩
    · exact Nat.lt_trans hd (by decide)
    · exact hd
  have hLt : ∀ m n : Nat, m < 256 → n < 256 → (UInt8.ofNat m < UInt8.ofNat n ↔ m < n) :=
    fun m n => UInt8.ofNat_lt_iff_lt
  have hEq : ∀ m n : Nat, m < 256 → n < 256 → (UInt8.ofNat m = UInt8.ofNat n ↔ m = n) := by
    intro m n hm hn
    rw [← UInt8.toNat_inj, UInt8.toNat_ofNat_of_lt' hm, UInt8.toNat_ofNat_of_lt' hn]
  rw [String.utf8EncodeChar, String.utf8EncodeChar]
  generalize c.val.toNat = v at *
  generalize d.val.toNat = w at *
  have hDiv : ∀ n < 1114112, n / 64 / 64 = n / 4096 ∧ n / 4096 / 64 = n / 262144 ∧
      n / 262144 % 8 = n / 262144 := by
    intro n hn
    omega
  obtain ⟨hv, hv', hv''⟩ := hDiv v (by omega)
  obtain ⟨hw, hw', hw''⟩ := hDiv w hd
  -- one case for each pair of lengths
  split_ifs
  all_goals
    simp (disch := omega) only [List.cons_append, List.nil_append, List.cons_lt_cons_iff, hLt, hEq]
    omega

theorem flatMap_utf8EncodeChar_lt {cs ds : List Char} (h : cs < ds) :
    cs.flatMap String.utf8EncodeChar < ds.flatMap String.utf8EncodeChar := by
  induction cs generalizing ds with
  | nil =>
    cases ds with
    | nil => cases h
    | cons d ds =>
      rw [List.flatMap_cons]
      obtain ⟨b, bs, hb⟩ := List.exists_cons_of_ne_nil (String.utf8EncodeChar_ne_nil (c := d))
      rw [hb]
      exact List.nil_lt_cons _ _
  | cons c cs ih =>
    cases ds with
    | nil => cases h
    | cons d ds =>
      rw [List.flatMap_cons, List.flatMap_cons]
      rcases List.cons_lt_cons_iff.mp h with hcd | ⟨rfl, hRest⟩
      · exact utf8EncodeChar_append_lt hcd _ _
      · exact List.append_left_lt (ih hRest)

/-- **Texts are in the order of their bytes.** -/
theorem bytes_lt_iff {s t : String} : bytes s < bytes t ↔ s < t := by
  rw [bytes_eq, bytes_eq]
  constructor
  · intro h
    rcases lt_trichotomy s t with hst | rfl | hts
    · exact hst
    · exact absurd h (List.lt_irrefl _)
    · exact absurd (flatMap_utf8EncodeChar_lt (String.lt_iff_toList_lt.mp hts)) (List.lt_asymm h)
  · intro h
    exact flatMap_utf8EncodeChar_lt (String.lt_iff_toList_lt.mp h)

theorem compare_eq_lt_iff {s t : String} : compare s t = .lt ↔ bytes s < bytes t := by
  rw [bytes_lt_iff]
  exact compareOfLessAndEq_eq_lt

theorem isLE_compare_iff {s t : String} : (compare s t).isLE = true ↔ bytes s ≤ bytes t := by
  rw [← List.not_lt, bytes_lt_iff]
  show (compareOfLessAndEq s t).isLE = true ↔ ¬ t < s
  rw [compareOfLessAndEq]
  split_ifs with hlt heq
  · simp [lt_asymm hlt]
  · simp [heq]
  · simp [lt_of_le_of_ne (not_lt.mp hlt) (Ne.symm heq)]

end Numeral
