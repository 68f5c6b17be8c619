import Numeral.Proofs.Locale.Tag

/-!
# Canonical extensions

What is read as an extension is canonical: its attributes and keywords are in their classes and in
small letters, and both stand in strict order.  A canonical tag is read back from its text
(`parse?_toText`), without the parts `true` of its values, because a part that is written so stands
for no part.
-/

namespace Numeral

theorem Subtag.size_of_isAlphanum {s : Subtag} {min max : Nat} (h : s.isAlphanum min max = true) :
    s.size = s.length := by
  have hFold : ∀ n, s.foldl (fun n c => n + c.utf8Size) n = n + s.length := by
    have hs := (Subtag.isAlphanum_iff.mp h).2.2
    clear h
    induction s with
    | nil => exact fun _ => rfl
    | cons c cs ih =>
      intro n
      have hSize : c.utf8Size = 1 :=
        of_isAlphanum (P := fun c => c.utf8Size = 1) (by decide) (hs c List.mem_cons_self)
      rw [List.foldl_cons, hSize, ih fun d hd => hs d (List.mem_cons_of_mem c hd), List.length_cons]
      omega
  rw [size, hFold, Nat.zero_add]

namespace UnicodeExtension

/-- The part of a value that stands for no part. -/
def truth : Subtag := ['t', 'r', 'u', 'e']

theorem valueParts_eq (rs : List Subtag) :
    LanguageTag.valueParts rs = (rs.filter (· != truth)).map Subtag.lower := rfl

/-- A keyword without the parts `true` of its value. -/
def dropTrue (k : Subtag × List Subtag) : Subtag × List Subtag := (k.1, k.2.filter (· != truth))

/-- The extension without the parts `true` of its values. -/
def withoutTrue (u : UnicodeExtension) : UnicodeExtension :=
  ⟨u.attributes, u.keywords.map dropTrue⟩

theorem isEmpty_withoutTrue (u : UnicodeExtension) : u.withoutTrue.isEmpty = u.isEmpty := by
  rw [isEmpty, withoutTrue, List.isEmpty_map, isEmpty]

theorem sortBy_map_dropTrue (ks : List (Subtag × List Subtag)) :
    Subtag.sortBy Prod.fst (ks.map dropTrue) = (Subtag.sortBy Prod.fst ks).map dropTrue :=
  Subtag.sortBy_map (fun _ => rfl) ks

/-! ### What is read is canonical -/

/-- The key and the parts of the value are in their classes and in small letters. -/
def IsKeyword (k : Subtag × List Subtag) : Prop :=
  (k.1.isKey = true ∧ k.1.lower = k.1) ∧ ∀ r ∈ k.2, r.isType = true ∧ r.lower = r

/-- Attributes and keywords are in their classes and in small letters, and stand in strict order. -/
structure IsCanonical (u : UnicodeExtension) : Prop where
  attributes : ∀ a ∈ u.attributes, a.isType = true ∧ a.lower = a
  increasing : Subtag.Increasing u.attributes
  keywords : ∀ k ∈ u.keywords, IsKeyword k
  increasingKeys : Subtag.Increasing (u.keywords.map Prod.fst)

theorem isCanonical_empty : empty.IsCanonical where
  attributes := fun _ ha => by cases ha
  increasing := List.Pairwise.nil
  keywords := fun _ hk => by cases hk
  increasingKeys := List.Pairwise.nil

theorem isKeyword_of_scanKeywords? {ss rest : List Subtag} {ks : List (Subtag × List Subtag)}
    (h : scanKeywords? ss = some (ks, rest)) : ∀ k ∈ ks, IsKeyword k := by
  fun_induction scanKeywords? ss generalizing ks rest with
  | case1 =>
    obtain ⟨rfl, -⟩ := Prod.mk.inj (Option.some.inj h)
    exact fun k hk => by cases hk
  | case2 =>
    obtain ⟨rfl, -⟩ := Prod.mk.inj (Option.some.inj h)
    exact fun k hk => by cases hk
  | case3 => cases h
  | case4 key ss hSize hKey =>
    rename_i ih
    obtain ⟨⟨ks', rest'⟩, hks, he⟩ := Option.map_eq_some_iff.mp h
    obtain ⟨rfl, -⟩ := Prod.mk.inj he
    intro k hk
    rcases List.mem_cons.mp hk with rfl | hk
    · refine ⟨⟨?_, Subtag.lower_lower key⟩, ?_⟩
      · rw [Subtag.isKey_lower]
        simpa using hKey
      · intro r hr
        obtain ⟨part, hPart, rfl⟩ := List.mem_map.mp hr
        have hType := List.mem_takeWhile_imp (List.mem_filter.mp hPart).1
        exact ⟨(Subtag.isType_lower part).trans hType, Subtag.lower_lower part⟩
    · exact ih hks k hk

theorem isCanonical_of_scan? {ss rest : List Subtag} {u : UnicodeExtension}
    (h : scan? ss = some (u, rest)) : u.IsCanonical := by
  simp only [scan?, Option.bind_eq_bind, Option.bind_eq_some_iff, Prod.exists] at h
  obtain ⟨ks, rest', hks, h⟩ := h
  split at h
  · cases h
  · obtain ⟨rfl, -⟩ := Prod.mk.inj (Option.some.inj h)
    refine ⟨?_, Subtag.increasing_sortBy _, ?_, Subtag.increasing_keys_sortBy Prod.fst ks⟩
    · intro a ha
      obtain ⟨s, hs, rfl⟩ := List.mem_map.mp (Subtag.mem_of_mem_sortBy ha)
      exact ⟨(Subtag.isType_lower s).trans (List.mem_takeWhile_imp hs), Subtag.lower_lower s⟩
    · exact fun k hk => isKeyword_of_scanKeywords? hks k (Subtag.mem_of_mem_sortBy hk)

end UnicodeExtension

namespace Extension

/-- Only the extension behind `u` gives anything. -/
theorem scan?_of_scanOne? {kind : Char} {ss rest : List Subtag} {u : UnicodeExtension}
    (h : scanOne? kind ss = some (some u, rest)) : UnicodeExtension.scan? ss = some (u, rest) := by
  rw [scanOne?] at h
  split at h
  · obtain ⟨p, hp, he⟩ := Option.map_eq_some_iff.mp h
    cases he
    exact hp
  · split at h
    · obtain ⟨rest', -, he⟩ := Option.map_eq_some_iff.mp h
      cases he
    · split at h
      · split at h
        · cases h
        · cases h
      · cases h

theorem isCanonical_of_scan? {before : List Char} {ss : List Subtag} {u : UnicodeExtension}
    (h : scan? before ss = some u) : u.IsCanonical := by
  fun_induction scan? before ss generalizing u with
  | case1 =>
    obtain rfl := Option.some.inj h
    exact UnicodeExtension.isCanonical_empty
  | case2 => cases h
  | case3 => cases h
  | case4 => cases h
  | case5 before c cs ss hc found rest hOne ih =>
    obtain ⟨u', hu', rfl⟩ := Option.map_eq_some_iff.mp h
    cases found with
    | none => exact ih hu'
    | some u => exact UnicodeExtension.isCanonical_of_scan? (scan?_of_scanOne? hOne)

/-- Extensions are read one after the other. -/
theorem scan?_cons (before : List Char) (c : Char) (cs : Subtag) (ss : List Subtag) :
    scan? before ((c :: cs) :: ss) =
      if !c.isAlpha || c.toLower ∈ before then none
      else (scanOne? c.toLower ss).bind fun (found, rest) =>
        (scan? (c.toLower :: before) rest).map fun u => found.getD u := by
  rw [scan?]
  congr 1
  split
  · rename_i h
    rw [h]
    rfl
  · rename_i h
    rw [h]
    rfl

end Extension

/-! ### What is canonical is read back -/

namespace UnicodeExtension

/-- The subtags of keywords. -/
def keywordSubtags (ks : List (Subtag × List Subtag)) : List Subtag :=
  ks.flatMap fun (k, parts) => k :: parts

theorem takeWhile_isType_append {rs ss : List Subtag} (hrs : ∀ r ∈ rs, r.isType = true)
    (hss : ∀ s ∈ ss.head?, s.isType = false) :
    (rs ++ ss).takeWhile Subtag.isType = rs ∧ (rs ++ ss).dropWhile Subtag.isType = ss := by
  rw [List.takeWhile_append_of_pos hrs, List.dropWhile_append_of_pos hrs]
  cases ss with
  | nil => exact ⟨List.append_nil rs, rfl⟩
  | cons s ss =>
    have hs : ¬ s.isType = true := by simp [hss s rfl]
    rw [List.takeWhile_cons_of_neg hs, List.dropWhile_cons_of_neg hs]
    exact ⟨List.append_nil rs, rfl⟩

/-- Keywords begin with a key, which is too short for a type. -/
theorem isType_head_keywordSubtags {ks : List (Subtag × List Subtag)}
    (h : ∀ k ∈ ks, IsKeyword k) : ∀ s ∈ (keywordSubtags ks).head?, s.isType = false := by
  cases ks with
  | nil =>
    intro s hs
    cases hs
  | cons k ks =>
    intro s hs
    obtain rfl : k.1 = s := Option.some.inj hs
    have hKey : k.1.isAlphanum 2 2 = true :=
      (Bool.and_eq_true_iff.mp (h k List.mem_cons_self).1.1).1
    have hLength := (Subtag.isAlphanum_iff.mp hKey).2.1
    rw [Bool.eq_false_iff]
    intro hType
    have := (Subtag.isAlphanum_iff.mp hType).1
    omega

theorem valueParts_of_lower {rs : List Subtag} (h : ∀ r ∈ rs, r.lower = r) :
    LanguageTag.valueParts rs = rs.filter (· != truth) := by
  rw [valueParts_eq]
  refine (List.map_congr_left fun r hr => ?_).trans (List.map_id _)
  exact h r (List.mem_filter.mp hr).1

theorem scanKeywords?_keywordSubtags {ks : List (Subtag × List Subtag)}
    (h : ∀ k ∈ ks, IsKeyword k) :
    scanKeywords? (keywordSubtags ks) = some (ks.map dropTrue, []) := by
  induction ks with
  | nil =>
    rw [keywordSubtags, List.flatMap_nil, scanKeywords?]
    rfl
  | cons k ks ih =>
    obtain ⟨⟨hKey, hLower⟩, hParts⟩ := h k List.mem_cons_self
    have hRest : ∀ k ∈ ks, IsKeyword k := fun l hl => h l (List.mem_cons_of_mem k hl)
    have hAlphanum : k.1.isAlphanum 2 2 = true := (Bool.and_eq_true_iff.mp hKey).1
    have hSize : k.1.size = 2 := by
      obtain ⟨h1, h2, -⟩ := Subtag.isAlphanum_iff.mp hAlphanum
      rw [Subtag.size_of_isAlphanum hAlphanum]
      omega
    have hValue := valueParts_of_lower fun r hr => (hParts r hr).2
    rw [LanguageTag.valueParts] at hValue
    obtain ⟨hTake, hDrop⟩ := takeWhile_isType_append (fun r hr => (hParts r hr).1)
      (isType_head_keywordSubtags hRest)
    show scanKeywords? (k.1 :: (k.2 ++ keywordSubtags ks)) = _
    rw [scanKeywords?, if_neg (by simp [hSize]), if_neg (by simp [hKey]), hTake, hDrop, ih hRest,
      hLower]
    simp only [Option.map_some, hValue]
    rfl

theorem scan?_subtags {u : UnicodeExtension} (hu : u.IsCanonical) (hne : u.isEmpty = false) :
    scan? (u.attributes ++ keywordSubtags u.keywords) = some (u.withoutTrue, []) := by
  obtain ⟨hTake, hDrop⟩ := takeWhile_isType_append (fun a ha => (hu.attributes a ha).1)
    (isType_head_keywordSubtags hu.keywords)
  have hLower : u.attributes.map Subtag.lower = u.attributes :=
    (List.map_congr_left fun a ha => (hu.attributes a ha).2).trans (List.map_id _)
  have hAttributes : Subtag.sortBy id u.attributes = u.attributes :=
    Subtag.sortBy_of_increasing (by rw [List.map_id]; exact hu.increasing)
  have hKeywords : Subtag.sortBy Prod.fst (u.keywords.map dropTrue) = u.keywords.map dropTrue := by
    rw [sortBy_map_dropTrue, Subtag.sortBy_of_increasing hu.increasingKeys]
  have hEmpty := u.isEmpty_withoutTrue
  rw [hne, withoutTrue] at hEmpty
  rw [scan?, hTake, hDrop, scanKeywords?_keywordSubtags hu.keywords]
  simp only [Option.bind_eq_bind, Option.bind_some, hLower, hAttributes, hKeywords, hEmpty]
  rfl

end UnicodeExtension

namespace Extension

theorem scan?_subtags {u : UnicodeExtension} (hu : u.IsCanonical) :
    scan? [] u.subtags = some u.withoutTrue := by
  rw [UnicodeExtension.subtags]
  by_cases hEmpty : u.isEmpty = true
  · have hNil : u.attributes = [] ∧ u.keywords = [] := by
      simpa [UnicodeExtension.isEmpty] using hEmpty
    rw [if_pos hEmpty, scan?, UnicodeExtension.withoutTrue, hNil.1, hNil.2]
    rfl
  · have hOne : scanOne? (Char.toLower 'u')
        (u.attributes ++ UnicodeExtension.keywordSubtags u.keywords) =
          some (some u.withoutTrue, []) := by
      rw [scanOne?, if_pos (by decide),
        UnicodeExtension.scan?_subtags hu (Bool.eq_false_iff.mpr hEmpty)]
      rfl
    rw [if_neg hEmpty]
    show scan? [] (['u'] :: (u.attributes ++ UnicodeExtension.keywordSubtags u.keywords)) = _
    rw [scan?_cons, if_neg (by decide), hOne]
    show (scan? ['u'] []).map _ = _
    rw [scan?]
    rfl

end Extension

namespace LanguageTag

/-- The tag without the parts `true` of its values. -/
def withoutTrue (t : LanguageTag) : LanguageTag := ⟨t.id, t.extension.withoutTrue⟩

theorem isCanonical_extension_of_parse? {s : String} {t : LanguageTag} (h : parse? s = some t) :
    t.extension.IsCanonical := by
  obtain ⟨rest, -, -, hExtension⟩ := parse?_eq_some h
  exact Extension.isCanonical_of_scan? hExtension

variable {t : LanguageTag}

theorem isAlphanum_of_mem_extension (ht : t.extension.IsCanonical) :
    ∀ s ∈ t.extension.subtags, ∀ c ∈ s, c.isAlphanum = true := by
  intro s hs
  rw [UnicodeExtension.subtags] at hs
  split at hs
  · cases hs
  · rcases List.mem_append.mp hs with hs | hs
    · rcases List.mem_cons.mp hs with rfl | hs
      · decide
      · exact (Subtag.isAlphanum_iff.mp (ht.attributes s hs).1).2.2
    · obtain ⟨k, hk, hs⟩ := List.mem_flatMap.mp hs
      obtain ⟨⟨hKey, -⟩, hParts⟩ := ht.keywords k hk
      rcases List.mem_cons.mp hs with rfl | hs
      · exact (Subtag.isAlphanum_iff.mp (Bool.and_eq_true_iff.mp hKey).1).2.2
      · exact (Subtag.isAlphanum_iff.mp (hParts s hs).1).2.2

/-- **The text of a canonical tag is read back**, without the parts `true` of its values. -/
theorem parse?_toText (hid : t.id.IsCanonical) (ht : t.extension.IsCanonical) :
    parse? t.toText = some t.withoutTrue := by
  have hParts : parts t.toText = t.id.subtags ++ t.extension.subtags := by
    apply parts_join (by simp [Identifier.subtags])
    intro s hs
    rcases List.mem_append.mp hs with hs | hs
    · exact isAlphanum_of_mem_subtags hid s hs
    · exact isAlphanum_of_mem_extension ht s hs
  have hFirst : ∀ a ∈ t.extension.subtags.head?, a.length = 1 ∧ a.size = 1 := by
    intro a ha
    rw [UnicodeExtension.subtags] at ha
    split at ha
    · cases ha
    · cases ha
      decide
  rw [parse?_of_parts hid hParts hFirst, Extension.scan?_subtags ht]
  rfl

end LanguageTag

end Numeral
