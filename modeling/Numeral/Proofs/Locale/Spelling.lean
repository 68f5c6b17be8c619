import Numeral.Proofs.Locale.Extension

/-!
# Spellings of a tag

Two texts are spellings of one tag if they differ only in the case of letters and in the separators
between subtags.  Every scanner reads the subtags in small letters as it reads the subtags, but for
one thing: the part `true` of a value stands for no part when it is written in small letters, and is
kept when it is not.  `withoutTrue` leaves it out in either case, and up to that all spellings are
read as the same tag (`parse?_respelled`).
-/

namespace Numeral

/-! ### Identifiers -/

namespace Identifier

theorem takeIf_map_lower {p : Subtag → Bool} (hp : ∀ s : Subtag, p s.lower = p s)
    (ss : List Subtag) :
    takeIf p (ss.map Subtag.lower) =
      ((takeIf p ss).1.map Subtag.lower, (takeIf p ss).2.map Subtag.lower) := by
  cases ss with
  | nil => rfl
  | cons s ss =>
    simp only [List.map_cons, takeIf, hp]
    by_cases hs : p s = true
    · rw [if_pos hs, if_pos hs]
      rfl
    · rw [if_neg hs, if_neg hs]
      rfl

theorem scanVariants?_map_lower (before ss : List Subtag) :
    scanVariants? before (ss.map Subtag.lower) =
      (scanVariants? before ss).map fun (vs, rest) => (vs, rest.map Subtag.lower) := by
  induction ss generalizing before with
  | nil => rfl
  | cons s ss ih =>
    rw [List.map_cons, scanVariants?, scanVariants?, Subtag.isVariant_lower, Subtag.lower_lower]
    by_cases hs : (!s.isVariant) = true
    · rw [if_pos hs, if_pos hs]
      rfl
    · rw [if_neg hs, if_neg hs]
      by_cases hm : s.lower ∈ before
      · rw [if_pos hm, if_pos hm]
        rfl
      · rw [if_neg hm, if_neg hm]
        exact ih _

theorem map_title_map_lower (o : Option Subtag) :
    (o.map Subtag.lower).map Subtag.title = o.map Subtag.title := by
  cases o with
  | none => rfl
  | some s => exact congrArg some (Subtag.title_lower s)

theorem map_upper_map_lower (o : Option Subtag) :
    (o.map Subtag.lower).map Subtag.upper = o.map Subtag.upper := by
  cases o with
  | none => rfl
  | some s => exact congrArg some (Subtag.upper_lower s)

theorem scan?_map_lower (ss : List Subtag) :
    scan? (ss.map Subtag.lower) =
      (scan? ss).map fun (t, rest) => (t, rest.map Subtag.lower) := by
  cases ss with
  | nil => rfl
  | cons s ss =>
    rw [List.map_cons, scan?, scan?, Subtag.isLanguage_lower, Subtag.lower_lower]
    by_cases hs : (!s.isLanguage) = true
    · rw [if_pos hs, if_pos hs]
      rfl
    · rw [if_neg hs, if_neg hs]
      simp only [takeIf_map_lower Subtag.isScript_lower, takeIf_map_lower Subtag.isRegion_lower,
        scanVariants?_map_lower, map_title_map_lower, map_upper_map_lower]
      rw [Option.map_map, Option.map_map]
      rfl

end Identifier

/-! ### Extensions -/

theorem takeWhile_map_lower {p : Subtag → Bool} (hp : ∀ s : Subtag, p s.lower = p s)
    (ss : List Subtag) :
    (ss.map Subtag.lower).takeWhile p = (ss.takeWhile p).map Subtag.lower := by
  rw [List.takeWhile_map]
  congr 2
  funext s
  exact hp s

theorem dropWhile_map_lower {p : Subtag → Bool} (hp : ∀ s : Subtag, p s.lower = p s)
    (ss : List Subtag) :
    (ss.map Subtag.lower).dropWhile p = (ss.dropWhile p).map Subtag.lower := by
  rw [List.dropWhile_map]
  congr 2
  funext s
  exact hp s

theorem all_map_lower {p : Subtag → Bool} (hp : ∀ s : Subtag, p s.lower = p s)
    (ss : List Subtag) : (ss.map Subtag.lower).all p = ss.all p := by
  rw [List.all_map]
  congr 1
  funext s
  exact hp s

theorem map_lower_map_lower (ss : List Subtag) :
    (ss.map Subtag.lower).map Subtag.lower = ss.map Subtag.lower := by
  rw [List.map_map]
  exact List.map_congr_left fun s _ => Subtag.lower_lower s

namespace UnicodeExtension

theorem valueParts_map_lower (rs : List Subtag) :
    LanguageTag.valueParts (rs.map Subtag.lower) =
      (LanguageTag.valueParts rs).filter (· != truth) := by
  induction rs with
  | nil => rfl
  | cons r rs ih =>
    rw [valueParts_eq, valueParts_eq] at ih ⊢
    rw [List.map_cons, List.filter_cons, List.filter_cons]
    by_cases hLower : r.lower = truth
    · rw [if_neg (by simp [hLower]), ih]
      by_cases hr : r = truth
      · rw [if_neg (by simp [hr])]
      · rw [if_pos (by simp [hr]), List.map_cons, List.filter_cons, if_neg (by simp [hLower])]
    · have hr : r ≠ truth := by
        rintro rfl
        exact hLower rfl
      rw [if_pos (by simp [hLower]), if_pos (by simp [hr]), List.map_cons, List.map_cons,
        List.filter_cons, if_pos (by simp [hLower]), Subtag.lower_lower, ih]

theorem scanKeywords?_map_lower (ss : List Subtag) :
    scanKeywords? (ss.map Subtag.lower) =
      (scanKeywords? ss).map fun (ks, rest) => (ks.map dropTrue, rest.map Subtag.lower) := by
  fun_induction scanKeywords? ss with
  | case1 =>
    rw [List.map_nil, scanKeywords?]
    rfl
  | case2 k rest hSize =>
    rw [List.map_cons, scanKeywords?, Subtag.size_lower, if_pos hSize]
    rfl
  | case3 k rest hSize hKey =>
    rw [List.map_cons, scanKeywords?, Subtag.size_lower, Subtag.isKey_lower, if_neg hSize,
      if_pos hKey]
    rfl
  | case4 k rest hSize hKey parts ih =>
    have hParts := valueParts_map_lower (rest.takeWhile Subtag.isType)
    rw [List.map_cons, scanKeywords?, Subtag.size_lower, Subtag.isKey_lower, if_neg hSize,
      if_neg hKey, dropWhile_map_lower Subtag.isType_lower, ih,
      takeWhile_map_lower Subtag.isType_lower, Subtag.lower_lower, Option.map_map, Option.map_map]
    congr 1
    funext p
    exact congrArg
      (fun value => ((k.lower, value) :: p.1.map dropTrue, p.2.map Subtag.lower)) hParts

theorem scan?_map_lower (ss : List Subtag) :
    scan? (ss.map Subtag.lower) =
      (scan? ss).map fun (u, rest) => (u.withoutTrue, rest.map Subtag.lower) := by
  rw [scan?, scan?, takeWhile_map_lower Subtag.isType_lower, map_lower_map_lower,
    dropWhile_map_lower Subtag.isType_lower, scanKeywords?_map_lower]
  cases scanKeywords? (ss.dropWhile Subtag.isType) with
  | none => rfl
  | some p =>
    obtain ⟨ks, rest⟩ := p
    have hEmpty := isEmpty_withoutTrue
      ⟨Subtag.sortBy id ((ss.takeWhile Subtag.isType).map Subtag.lower),
        Subtag.sortBy Prod.fst ks⟩
    rw [withoutTrue] at hEmpty
    simp only [Option.bind_eq_bind, Option.map_some, Option.bind_some, sortBy_map_dropTrue, hEmpty]
    split
    · rfl
    · rfl

end UnicodeExtension

namespace Extension

theorem skipFields?_map_lower (ss : List Subtag) :
    skipFields? (ss.map Subtag.lower) = (skipFields? ss).map (List.map Subtag.lower) := by
  fun_induction skipFields? ss with
  | case1 =>
    rw [List.map_nil, skipFields?]
    rfl
  | case2 k rest hKey =>
    rw [List.map_cons, skipFields?, Subtag.isFieldKey_lower, if_pos hKey]
    rfl
  | case3 k rest hKey hNone =>
    rw [List.map_cons, skipFields?, Subtag.isFieldKey_lower, if_neg hKey,
      takeWhile_map_lower Subtag.isType_lower, List.isEmpty_map, if_pos hNone]
    rfl
  | case4 k rest hKey hSome ih =>
    rw [List.map_cons, skipFields?, Subtag.isFieldKey_lower, if_neg hKey,
      takeWhile_map_lower Subtag.isType_lower, List.isEmpty_map, if_neg hSome,
      dropWhile_map_lower Subtag.isType_lower, ih]

theorem skipTransform?_map_lower (ss : List Subtag) :
    skipTransform? (ss.map Subtag.lower) = (skipTransform? ss).map (List.map Subtag.lower) := by
  have hFirst : ((ss.map Subtag.lower).take 1).any Subtag.isLanguage =
      (ss.take 1).any Subtag.isLanguage := by
    cases ss with
    | nil => rfl
    | cons s ss => simp [Subtag.isLanguage_lower]
  rw [skipTransform?, skipTransform?, hFirst]
  by_cases h : (ss.take 1).any Subtag.isLanguage = true
  · rw [if_pos h, if_pos h, Identifier.scan?_map_lower]
    cases Identifier.scan? ss with
    | none => rfl
    | some p => exact skipFields?_map_lower p.2
  · rw [if_neg h, if_neg h]
    exact skipFields?_map_lower ss

theorem scanOne?_map_lower (kind : Char) (ss : List Subtag) :
    scanOne? kind (ss.map Subtag.lower) =
      (scanOne? kind ss).map fun (u, rest) =>
        (u.map UnicodeExtension.withoutTrue, rest.map Subtag.lower) := by
  rw [scanOne?, scanOne?, UnicodeExtension.scan?_map_lower, skipTransform?_map_lower,
    all_map_lower Subtag.isPrivate_lower, dropWhile_map_lower Subtag.isOpaque_lower]
  split
  · cases UnicodeExtension.scan? ss with
    | none => rfl
    | some p => rfl
  · split
    · cases skipTransform? ss with
      | none => rfl
      | some rest => rfl
    · split
      · split
        · rfl
        · rfl
      · rfl

theorem scan?_map_lower (before : List Char) (ss : List Subtag) :
    scan? before (ss.map Subtag.lower) =
      (scan? before ss).map UnicodeExtension.withoutTrue := by
  fun_induction scan? before ss with
  | case1 =>
    rw [List.map_nil, scan?]
    rfl
  | case2 =>
    rw [List.map_cons]
    show scan? _ ([] :: _) = _
    rw [scan?]
    rfl
  | case3 before c cs ss hKind =>
    rw [List.map_cons]
    show scan? before ((c.toLower :: cs.map Char.toLower) :: _) = _
    rw [scan?_cons, (toLower_keeps c).1, (toLower_keeps c).2.2.1, if_pos hKind]
    rfl
  | case4 before c cs ss hKind hOne =>
    rw [List.map_cons]
    show scan? before ((c.toLower :: cs.map Char.toLower) :: _) = _
    rw [scan?_cons, (toLower_keeps c).1, (toLower_keeps c).2.2.1, if_neg hKind,
      scanOne?_map_lower, hOne]
    rfl
  | case5 before c cs ss hKind found rest hOne ih =>
    rw [List.map_cons]
    show scan? before ((c.toLower :: cs.map Char.toLower) :: _) = _
    rw [scan?_cons, (toLower_keeps c).1, (toLower_keeps c).2.2.1, if_neg hKind,
      scanOne?_map_lower, hOne]
    show (scan? (c.toLower :: before) (rest.map Subtag.lower)).map _ = _
    rw [ih, Option.map_map, Option.map_map]
    cases found with
    | none => rfl
    | some u => rfl

end Extension

/-! ### Tags -/

namespace LanguageTag

theorem ofSubtags?_map_lower (ss : List Subtag) :
    ofSubtags? (ss.map Subtag.lower) = (ofSubtags? ss).map withoutTrue := by
  rw [ofSubtags?, ofSubtags?, Identifier.scan?_map_lower]
  cases Identifier.scan? ss with
  | none => rfl
  | some p =>
    obtain ⟨id, rest⟩ := p
    have hFirst : ((rest.map Subtag.lower).take 1).all (·.size == 1) =
        (rest.take 1).all (·.size == 1) := by
      cases rest with
      | nil => rfl
      | cons s ss => simp [Subtag.size_lower]
    simp only [Option.bind_eq_bind, Option.map_some, Option.bind_some, hFirst]
    split
    · rw [Extension.scan?_map_lower]
      cases Extension.scan? [] rest with
      | none => rfl
      | some e => rfl
    · rfl

/-- A text with its letters in small and hyphens for its separators. -/
def spelling (s : String) : List Char := s.toList.map fun c => if c = '_' then '-' else c.toLower

theorem toLower_eq_hyphen_iff (c : Char) : c.toLower = '-' ↔ c = '-' := by
  by_cases h : c.isAlphanum = true
  · have hNe : c.toLower ≠ '-' ∧ c ≠ '-' :=
      of_isAlphanum (P := fun c => c.toLower ≠ '-' ∧ c ≠ '-') (by decide) h
    exact ⟨fun hc => absurd hc hNe.1, fun hc => absurd hc hNe.2⟩
  · rw [toLower_of_not_isAlphanum h]

/-- Small letters stand between the same hyphens. -/
theorem splitOn_map_toLower (cs : List Char) :
    (cs.map Char.toLower).splitOn '-' = (cs.splitOn '-').map Subtag.lower := by
  induction cs with
  | nil => rfl
  | cons c cs ih =>
    rw [List.splitOn_eq_splitOnP, List.splitOn_eq_splitOnP] at ih ⊢
    rw [List.map_cons, List.splitOnP_cons_eq_if_modifyHead, List.splitOnP_cons_eq_if_modifyHead, ih]
    by_cases hc : c = '-'
    · rw [if_pos (by simp [hc]), if_pos (by simp [hc])]
      rfl
    · rw [if_neg (by simpa [toLower_eq_hyphen_iff] using hc), if_neg (by simpa using hc)]
      cases List.splitOnP (· == '-') cs with
      | nil => rfl
      | cons s ss => rfl

theorem map_lower_parts (s : String) : (parts s).map Subtag.lower = (spelling s).splitOn '-' := by
  rw [parts, Subtag.split, ← splitOn_map_toLower, String.toList_map, List.map_map, spelling]
  congr 1
  apply List.map_congr_left
  intro c _
  rw [Function.comp_apply]
  split
  · rfl
  · rfl

/-- **Every spelling of a tag is read**, and up to the parts `true` of values as the same tag. -/
theorem parse?_respelled {s s' : String} (h : spelling s' = spelling s) :
    (parse? s').map withoutTrue = (parse? s).map withoutTrue := by
  rw [parse?_eq, parse?_eq, ← ofSubtags?_map_lower, ← ofSubtags?_map_lower, map_lower_parts,
    map_lower_parts, h]

end LanguageTag

end Numeral
