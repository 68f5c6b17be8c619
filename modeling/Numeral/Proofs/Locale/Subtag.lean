import Numeral.Locale.Subtag

/-!
# Canonical subtags

Changing the case of a subtag keeps it in its class, and changing it twice is changing it once.
Subtags of letters and digits have no hyphens, so that they come back from the text that joins
them.  Inserting keeps a list in strict order, and appends what is greater than all of it; sorting
looks at the keys only, and leaves what is sorted as it is.
-/

namespace Numeral

/-! ### Letters and digits -/

/-- What holds of the letters and digits below 128 holds of all of them. -/
theorem of_isAlphanum {P : Char → Prop}
    (hP : ∀ n < 128, (Char.ofNat n).isAlphanum = true → P (Char.ofNat n)) {c : Char}
    (hc : c.isAlphanum = true) : P c := by
  -- Each class is a range of code points below 128.
  have hn : c.toNat < 128 := by
    unfold Char.isAlphanum Char.isAlpha Char.isUpper Char.isLower Char.isDigit at hc
    simp only [Bool.or_eq_true, Bool.and_eq_true, decide_eq_true_eq, ge_iff_le,
      UInt32.le_iff_toNat_le] at hc
    change ((65 ≤ c.toNat ∧ c.toNat ≤ 90) ∨ (97 ≤ c.toNat ∧ c.toNat ≤ 122)) ∨
      (48 ≤ c.toNat ∧ c.toNat ≤ 57) at hc
    omega
  have hP := hP c.toNat hn
  rw [Char.ofNat_toNat] at hP
  exact hP hc

theorem isAlpha_of_isUpper {c : Char} (h : c.isUpper = true) : c.isAlpha = true :=
  Bool.or_eq_true_iff.mpr (Or.inl h)

theorem isAlphanum_of_isAlpha {c : Char} (h : c.isAlpha = true) : c.isAlphanum = true := by
  rw [Char.isAlphanum, h, Bool.true_or]

theorem isAlphanum_of_isDigit {c : Char} (h : c.isDigit = true) : c.isAlphanum = true := by
  rw [Char.isAlphanum, h, Bool.or_true]

theorem toUpper_class {c : Char} (h : c.isAlphanum = true) :
    c.toUpper.isAlpha = c.isAlpha ∧ c.toUpper.isDigit = c.isDigit ∧ c.toUpper.toUpper = c.toUpper :=
  of_isAlphanum (P := fun c => c.toUpper.isAlpha = c.isAlpha ∧ c.toUpper.isDigit = c.isDigit ∧
    c.toUpper.toUpper = c.toUpper) (by decide) h

theorem toLower_of_not_isAlphanum {c : Char} (h : ¬ c.isAlphanum = true) : c.toLower = c := by
  have hRange : ¬ (c.val ≥ 65 ∧ c.val ≤ 90) := by
    intro hc
    apply h
    have hUpper : c.isUpper = true := decide_eq_true hc
    exact isAlphanum_of_isAlpha (isAlpha_of_isUpper hUpper)
  exact dif_neg hRange

/-- What a small letter has in common with the letter, whatever the character. -/
theorem toLower_keeps (c : Char) :
    c.toLower.isAlpha = c.isAlpha ∧ c.toLower.isDigit = c.isDigit ∧ c.toLower.toLower = c.toLower ∧
      c.toLower.toUpper = c.toUpper ∧ c.toLower.utf8Size = c.utf8Size := by
  by_cases h : c.isAlphanum = true
  · exact of_isAlphanum (P := fun c => c.toLower.isAlpha = c.isAlpha ∧
      c.toLower.isDigit = c.isDigit ∧ c.toLower.toLower = c.toLower ∧
      c.toLower.toUpper = c.toUpper ∧ c.toLower.utf8Size = c.utf8Size) (by decide) h
  · rw [toLower_of_not_isAlphanum h]
    exact ⟨rfl, rfl, toLower_of_not_isAlphanum h, rfl, rfl⟩

theorem ne_hyphen_of_isAlphanum {c : Char} (h : c.isAlphanum = true) : c ≠ '-' ∧ c ≠ '_' :=
  of_isAlphanum (P := fun c => c ≠ '-' ∧ c ≠ '_') (by decide) h

namespace Subtag

/-! ### The case of a subtag -/

variable {s : Subtag} {min max : Nat}

theorem isAlphanum_iff : s.isAlphanum min max = true ↔
    min ≤ s.length ∧ s.length ≤ max ∧ ∀ c ∈ s, c.isAlphanum = true := by
  simp [isAlphanum, and_assoc]

theorem isAlpha_iff : s.isAlpha min max = true ↔
    min ≤ s.length ∧ s.length ≤ max ∧ ∀ c ∈ s, c.isAlpha = true := by
  simp [isAlpha, and_assoc]

theorem isAlphanum_of_isAlpha (h : s.isAlpha min max = true) : s.isAlphanum min max = true := by
  obtain ⟨h1, h2, hs⟩ := isAlpha_iff.mp h
  exact isAlphanum_iff.mpr ⟨h1, h2, fun c hc => Numeral.isAlphanum_of_isAlpha (hs c hc)⟩

theorem lower_lower (s : Subtag) : s.lower.lower = s.lower := by
  rw [lower, lower, List.map_map]
  apply List.map_congr_left
  intro c _
  exact (toLower_keeps c).2.2.1

theorem upper_upper (h : s.isAlphanum min max = true) : s.upper.upper = s.upper := by
  rw [upper, upper, List.map_map]
  apply List.map_congr_left
  intro c hc
  exact (toUpper_class ((isAlphanum_iff.mp h).2.2 c hc)).2.2

theorem isAlpha_map {f : Char → Char}
    (hf : ∀ c, c.isAlphanum = true → (f c).isAlpha = c.isAlpha)
    (h : s.isAlpha min max = true) : Subtag.isAlpha min max (s.map f) = true := by
  obtain ⟨h1, h2, hs⟩ := isAlpha_iff.mp h
  refine isAlpha_iff.mpr ⟨by rwa [List.length_map], by rwa [List.length_map], ?_⟩
  intro d hd
  obtain ⟨c, hc, rfl⟩ := List.mem_map.mp hd
  rw [hf c (Numeral.isAlphanum_of_isAlpha (hs c hc))]
  exact hs c hc

theorem isScript_title (h : s.isScript = true) : s.title.isScript = true := by
  cases s with
  | nil => cases h
  | cons c cs =>
    obtain ⟨h1, h2, hs⟩ := isAlpha_iff.mp h
    refine isAlpha_iff.mpr ⟨by simpa [title] using h1, by simpa [title] using h2, ?_⟩
    intro d hd
    rcases List.mem_cons.mp hd with rfl | hd
    · rw [(toUpper_class (Numeral.isAlphanum_of_isAlpha (hs c List.mem_cons_self))).1]
      exact hs c List.mem_cons_self
    · obtain ⟨e, he, rfl⟩ := List.mem_map.mp hd
      have he := hs e (List.mem_cons_of_mem c he)
      rw [(toLower_keeps e).1]
      exact he

theorem title_title (h : s.isAlphanum min max = true) : s.title.title = s.title := by
  cases s with
  | nil => rfl
  | cons c cs =>
    have hs := (isAlphanum_iff.mp h).2.2
    show c.toUpper.toUpper :: (cs.map Char.toLower).map Char.toLower =
      c.toUpper :: cs.map Char.toLower
    rw [(toUpper_class (hs c List.mem_cons_self)).2.2, List.map_map]
    congr 1
    apply List.map_congr_left
    intro d _
    exact (toLower_keeps d).2.2.1

theorem isRegion_iff : s.isRegion = true ↔
    s.isAlpha 2 2 = true ∨ s.length = 3 ∧ ∀ c ∈ s, c.isDigit = true := by
  simp [isRegion]

theorem isRegion_upper (h : s.isRegion = true) : s.upper.isRegion = true := by
  rcases isRegion_iff.mp h with h | ⟨hl, hs⟩
  · exact isRegion_iff.mpr (.inl (isAlpha_map (fun _ hc => (toUpper_class hc).1) h))
  · refine isRegion_iff.mpr (.inr ⟨by rwa [upper, List.length_map], ?_⟩)
    intro d hd
    obtain ⟨c, hc, rfl⟩ := List.mem_map.mp hd
    rw [(toUpper_class (isAlphanum_of_isDigit (hs c hc))).2.1]
    exact hs c hc

theorem isVariant_iff : s.isVariant = true ↔
    s.isAlphanum 5 8 = true ∨ s.isAlphanum 4 4 = true ∧ ∀ c ∈ s.take 1, c.isDigit = true := by
  simp [isVariant]

/-! ### Small letters

A subtag in small letters is in the classes that the subtag is in. -/

theorem length_lower (s : Subtag) : s.lower.length = s.length := List.length_map _

theorem all_lower {p : Char → Bool} (hp : ∀ c, p c.toLower = p c) (s : Subtag) :
    s.lower.all p = s.all p := by
  rw [lower, List.all_map]
  congr 1
  funext c
  exact hp c

theorem take_lower (n : Nat) (s : Subtag) : s.lower.take n = lower (s.take n) := List.map_take.symm

theorem drop_lower (n : Nat) (s : Subtag) : s.lower.drop n = lower (s.drop n) := List.map_drop.symm

theorem all_isAlpha_lower (s : Subtag) : s.lower.all Char.isAlpha = s.all Char.isAlpha :=
  all_lower (fun c => (toLower_keeps c).1) s

theorem all_isDigit_lower (s : Subtag) : s.lower.all Char.isDigit = s.all Char.isDigit :=
  all_lower (fun c => (toLower_keeps c).2.1) s

theorem isAlphanum_lower (min max : Nat) (s : Subtag) :
    s.lower.isAlphanum min max = s.isAlphanum min max := by
  have hAll : s.lower.all Char.isAlphanum = s.all Char.isAlphanum := by
    apply all_lower
    intro c
    rw [Char.isAlphanum, (toLower_keeps c).1, (toLower_keeps c).2.1, Char.isAlphanum]
  rw [isAlphanum, isAlphanum, length_lower, hAll]

theorem isAlpha_lower (min max : Nat) (s : Subtag) :
    s.lower.isAlpha min max = s.isAlpha min max := by
  rw [isAlpha, isAlpha, length_lower, all_isAlpha_lower]

theorem isLanguage_lower (s : Subtag) : s.lower.isLanguage = s.isLanguage := isAlpha_lower 2 3 s

theorem isScript_lower (s : Subtag) : s.lower.isScript = s.isScript := isAlpha_lower 4 4 s

theorem isRegion_lower (s : Subtag) : s.lower.isRegion = s.isRegion := by
  rw [isRegion, isRegion, isAlpha_lower, length_lower, all_isDigit_lower]

theorem isVariant_lower (s : Subtag) : s.lower.isVariant = s.isVariant := by
  rw [isVariant, isVariant, isAlphanum_lower, isAlphanum_lower, take_lower, all_isDigit_lower]

theorem isType_lower (s : Subtag) : s.lower.isType = s.isType := isAlphanum_lower 3 8 s

theorem isPrivate_lower (s : Subtag) : s.lower.isPrivate = s.isPrivate := isAlphanum_lower 1 8 s

theorem isKey_lower (s : Subtag) : s.lower.isKey = s.isKey := by
  rw [isKey, isKey, isAlphanum_lower, drop_lower, all_isAlpha_lower]

theorem isFieldKey_lower (s : Subtag) : s.lower.isFieldKey = s.isFieldKey := by
  rw [isFieldKey, isFieldKey, length_lower, take_lower, drop_lower, all_isAlpha_lower,
    all_isDigit_lower]

theorem size_lower (s : Subtag) : s.lower.size = s.size := by
  rw [size, size, lower, List.foldl_map]
  congr 1
  funext n c
  rw [(toLower_keeps c).2.2.2.2]

theorem isOpaque_lower (s : Subtag) : s.lower.isOpaque = s.isOpaque := by
  rw [isOpaque, isOpaque, size_lower]

theorem upper_lower (s : Subtag) : s.lower.upper = s.upper := by
  rw [lower, upper, List.map_map]
  apply List.map_congr_left
  intro c _
  exact (toLower_keeps c).2.2.2.1

theorem title_lower (s : Subtag) : s.lower.title = s.title := by
  have hTake : upper (lower (s.take 1)) = upper (s.take 1) := upper_lower _
  have hDrop : lower (lower (s.drop 1)) = lower (s.drop 1) := lower_lower _
  rw [title, title, take_lower, drop_lower]
  exact congr (congrArg (· ++ ·) hTake) hDrop

/-! ### Classes that shut each other out -/

theorem isAlphanum_of_isRegion (h : s.isRegion = true) : s.isAlphanum 2 3 = true := by
  rcases isRegion_iff.mp h with h | ⟨hl, hs⟩
  · obtain ⟨h1, h2, hs⟩ := isAlphanum_iff.mp (isAlphanum_of_isAlpha h)
    exact isAlphanum_iff.mpr ⟨h1, by omega, hs⟩
  · exact isAlphanum_iff.mpr ⟨by omega, by omega, fun c hc => isAlphanum_of_isDigit (hs c hc)⟩

theorem isAlphanum_of_isVariant (h : s.isVariant = true) : s.isAlphanum 4 8 = true := by
  rcases isVariant_iff.mp h with h | ⟨h, -⟩
  · obtain ⟨h1, h2, hs⟩ := isAlphanum_iff.mp h
    exact isAlphanum_iff.mpr ⟨by omega, h2, hs⟩
  · obtain ⟨h1, h2, hs⟩ := isAlphanum_iff.mp h
    exact isAlphanum_iff.mpr ⟨h1, by omega, hs⟩

theorem isScript_eq_false_of_isVariant (h : s.isVariant = true) : s.isScript = false := by
  rw [Bool.eq_false_iff]
  intro hs
  obtain ⟨h1, h2, hs⟩ := isAlpha_iff.mp hs
  rcases isVariant_iff.mp h with h | ⟨h, hd⟩
  · have := (isAlphanum_iff.mp h).1
    omega
  · cases s with
    | nil => cases h
    | cons c cs =>
      have hc : ∀ d : Char, d.isAlphanum = true → ¬ (d.isAlpha = true ∧ d.isDigit = true) :=
        fun d hd => of_isAlphanum (P := fun d => ¬ (d.isAlpha = true ∧ d.isDigit = true))
          (by decide) hd
      have hc := hc c (Numeral.isAlphanum_of_isAlpha (hs c List.mem_cons_self))
      exact hc ⟨hs c List.mem_cons_self, hd c (by simp)⟩

theorem isRegion_eq_false_of_length (h : 4 ≤ s.length ∨ s.length < 2) : s.isRegion = false := by
  rw [Bool.eq_false_iff]
  intro hs
  obtain ⟨h1, h2, -⟩ := isAlphanum_iff.mp (isAlphanum_of_isRegion hs)
  omega

theorem isScript_eq_false_of_length (h : s.length < 4) : s.isScript = false := by
  rw [Bool.eq_false_iff]
  intro hs
  have := (isAlpha_iff.mp hs).1
  omega

theorem isVariant_eq_false_of_length (h : s.length < 4) : s.isVariant = false := by
  rw [Bool.eq_false_iff]
  intro hs
  have := (isAlphanum_iff.mp (isAlphanum_of_isVariant hs)).1
  omega

/-! ### Joining and splitting -/

theorem mem_join {ss : List Subtag} {c : Char} (h : c ∈ (join ss).toList) :
    c = '-' ∨ ∃ s ∈ ss, c ∈ s := by
  rw [join, String.toList_ofList] at h
  induction ss with
  | nil => cases h
  | cons s ss ih =>
    cases ss with
    | nil =>
      rw [List.intercalate_singleton] at h
      exact .inr ⟨s, List.mem_cons_self, h⟩
    | cons a as =>
      rw [List.intercalate_cons_cons, List.append_assoc] at h
      rcases List.mem_append.mp h with h | h
      · exact .inr ⟨s, List.mem_cons_self, h⟩
      · rcases List.mem_cons.mp h with h | h
        · exact .inl h
        · rcases ih h with h | ⟨b, hb, h⟩
          · exact .inl h
          · exact .inr ⟨b, List.mem_cons_of_mem s hb, h⟩

theorem split_join {ss : List Subtag} (hne : ss ≠ []) (hss : ∀ s ∈ ss, '-' ∉ s) :
    split (join ss) = ss := by
  rw [split, join, String.toList_ofList, List.splitOn_intercalate '-' hss hne]

@[simp]
theorem join_split (s : String) : join (split s) = s := by
  rw [join, split, List.intercalate_splitOn, String.ofList_toList]

theorem split_ne_nil (s : String) : split s ≠ [] := List.splitOn_ne_nil '-' s.toList

/-- There are no hyphens between hyphens. -/
theorem not_mem_of_mem_split {text : String} : ∀ s ∈ split text, '-' ∉ s := by
  rw [split]
  induction text.toList with
  | nil =>
    intro s hs
    rw [List.mem_singleton.mp hs]
    exact List.not_mem_nil
  | cons c cs ih =>
    rw [List.splitOn_eq_splitOnP] at ih ⊢
    rw [List.splitOnP_cons_eq_if_modifyHead]
    split
    · intro s hs
      rcases List.mem_cons.mp hs with rfl | hs
      · exact List.not_mem_nil
      · exact ih s hs
    · rename_i hc
      have hc : c ≠ '-' := fun he => hc (beq_iff_eq.mpr he)
      -- the character stands before the first subtag
      cases hSplit : cs.splitOnP (· == '-') with
      | nil => simp
      | cons a as =>
        rw [hSplit] at ih
        intro s hs
        rcases List.mem_cons.mp hs with rfl | hs
        · intro hMem
          rcases List.mem_cons.mp hMem with he | hMem
          · exact hc he.symm
          · exact ih a List.mem_cons_self hMem
        · exact ih s (List.mem_cons_of_mem a hs)

theorem split_append (a b : String) : split (a ++ "-" ++ b) = split a ++ split b := by
  have hb : (a ++ "-" ++ b).toList = a.toList ++ '-' :: b.toList := by simp
  rw [split, hb, List.splitOn_append_cons_self]
  rfl

/-! ### Sorting -/

/-- The subtags stand in strict order. -/
def Increasing (ss : List Subtag) : Prop := ss.Pairwise fun a b => compare a b = .lt

theorem insertBy_of_greater {α : Type} (key : α → Subtag) {a : α} {as : List α}
    (h : ∀ b ∈ as, compare (key b) (key a) = .lt) : insertBy key a as = as ++ [a] := by
  induction as with
  | nil => rfl
  | cons b bs ih =>
    have hgt : compare (key a) (key b) = .gt := Std.OrientedCmp.gt_of_lt (h b List.mem_cons_self)
    rw [insertBy]
    simp only [hgt]
    rw [ih fun c hc => h c (List.mem_cons_of_mem b hc), List.cons_append]

/-- Inserting looks at the keys only. -/
theorem insertBy_map {α β : Type} {key : α → Subtag} {key' : β → Subtag} {f : α → β}
    (hf : ∀ a, key' (f a) = key a) (a : α) (as : List α) :
    insertBy key' (f a) (as.map f) = (insertBy key a as).map f := by
  induction as with
  | nil => rfl
  | cons b bs ih =>
    rw [List.map_cons, insertBy, insertBy, hf, hf]
    cases compare (key a) (key b) with
    | lt => rfl
    | eq => rfl
    | gt =>
      simp only []
      rw [ih, List.map_cons]

theorem sortBy_map {α β : Type} {key : α → Subtag} {key' : β → Subtag} {f : α → β}
    (hf : ∀ a, key' (f a) = key a) (as : List α) :
    sortBy key' (as.map f) = (sortBy key as).map f := by
  have hFold : ∀ sorted : List α,
      (as.map f).foldl (fun sorted a => insertBy key' a sorted) (sorted.map f) =
        (as.foldl (fun sorted a => insertBy key a sorted) sorted).map f := by
    induction as with
    | nil => exact fun _ => rfl
    | cons a as ih =>
      intro sorted
      rw [List.map_cons, List.foldl_cons, insertBy_map hf]
      exact ih _
  exact hFold []

theorem mem_insertBy {α : Type} {key : α → Subtag} {a b : α} {as : List α}
    (h : b ∈ insertBy key a as) : b = a ∨ b ∈ as := by
  induction as with
  | nil => exact .inl (List.mem_singleton.mp h)
  | cons c cs ih =>
    simp only [insertBy] at h
    cases hc : compare (key a) (key c) with
    | lt =>
      simp only [hc] at h
      rcases List.mem_cons.mp h with h | h
      · exact .inl h
      · exact .inr h
    | eq =>
      simp only [hc] at h
      exact .inr h
    | gt =>
      simp only [hc] at h
      rcases List.mem_cons.mp h with h | h
      · exact .inr (h ▸ List.mem_cons_self)
      · rcases ih h with h | h
        · exact .inl h
        · exact .inr (List.mem_cons_of_mem c h)

theorem mem_of_mem_foldl_insertBy {α : Type} {key : α → Subtag} {b : α} {as sorted : List α}
    (h : b ∈ as.foldl (fun sorted a => insertBy key a sorted) sorted) : b ∈ as ∨ b ∈ sorted := by
  induction as generalizing sorted with
  | nil => exact .inr h
  | cons a as ih =>
    rcases ih h with h | h
    · exact .inl (List.mem_cons_of_mem a h)
    · rcases mem_insertBy h with rfl | h
      · exact .inl List.mem_cons_self
      · exact .inr h

theorem mem_of_mem_sortBy {α : Type} {key : α → Subtag} {b : α} {as : List α}
    (h : b ∈ sortBy key as) : b ∈ as :=
  (mem_of_mem_foldl_insertBy h).resolve_right List.not_mem_nil

theorem increasing_insertBy {a : Subtag} {ss : List Subtag} (h : Increasing ss) :
    Increasing (insertBy id a ss) := by
  induction ss with
  | nil => exact List.pairwise_singleton _ a
  | cons b bs ih =>
    obtain ⟨hb, hbs⟩ := List.pairwise_cons.mp h
    simp only [insertBy, id_eq]
    cases hc : compare a b with
    | lt =>
      refine List.pairwise_cons.mpr ⟨?_, h⟩
      intro c hm
      rcases List.mem_cons.mp hm with rfl | hm
      · exact hc
      · exact Std.TransCmp.lt_trans hc (hb c hm)
    | eq => exact h
    | gt =>
      refine List.pairwise_cons.mpr ⟨?_, ih hbs⟩
      intro c hm
      rcases mem_insertBy hm with rfl | hm
      · exact Std.OrientedCmp.lt_of_gt hc
      · exact hb c hm

theorem increasing_sortBy (ss : List Subtag) : Increasing (sortBy id ss) := by
  have hFold : ∀ sorted, Increasing sorted →
      Increasing (ss.foldl (fun sorted a => insertBy id a sorted) sorted) := by
    induction ss with
    | nil => exact fun _ h => h
    | cons s ss ih => exact fun _ h => ih _ (increasing_insertBy h)
  exact hFold [] List.Pairwise.nil

/-- The keys of sorted entries stand in strict order. -/
theorem increasing_keys_sortBy {α : Type} (key : α → Subtag) (as : List α) :
    Increasing ((sortBy key as).map key) := by
  have hKeys : sortBy id (as.map key) = (sortBy key as).map key := sortBy_map (fun _ => rfl) as
  rw [← hKeys]
  exact increasing_sortBy _

/-- Entries whose keys stand in strict order are sorted as they are. -/
theorem sortBy_of_increasing {α : Type} {key : α → Subtag} {as : List α}
    (h : Increasing (as.map key)) : sortBy key as = as := by
  have hFold : ∀ sorted : List α, Increasing ((sorted ++ as).map key) →
      as.foldl (fun sorted a => insertBy key a sorted) sorted = sorted ++ as := by
    induction as with
    | nil =>
      intro sorted _
      rw [List.append_nil]
      rfl
    | cons a as ih =>
      intro sorted hAll
      have hBelow : ∀ b ∈ sorted, compare (key b) (key a) = .lt := by
        intro b hb
        rw [List.map_append, List.map_cons] at hAll
        exact (List.pairwise_append.mp hAll).2.2 _ (List.mem_map_of_mem hb) _ List.mem_cons_self
      rw [← List.singleton_append, ← List.append_assoc] at hAll
      rw [List.foldl_cons, insertBy_of_greater key hBelow,
        ih (List.pairwise_cons.mp h).2 _ hAll, List.append_assoc, List.singleton_append]
  exact hFold [] h

end Subtag

end Numeral
