import Numeral.Locale.Identifier
import Numeral.Proofs.Locale.Subtag

/-!
# Canonical identifiers

What is read as an identifier is canonical: each of its subtags is in its class and in its case,
and the variants stand in strict order.  The subtags of a canonical identifier are read back as
that identifier, whatever follows them, as long as it begins with a single character.
-/

namespace Numeral.Identifier

/-- Every subtag is in its class and in canonical case, and the variants stand in strict order. -/
structure IsCanonical (t : Identifier) : Prop where
  language : t.language.isLanguage = true ∧ t.language.lower = t.language
  script : ∀ s ∈ t.script, s.isScript = true ∧ s.title = s
  region : ∀ s ∈ t.region, s.isRegion = true ∧ s.upper = s
  variants : ∀ s ∈ t.variants, s.isVariant = true ∧ s.lower = s
  increasing : Subtag.Increasing t.variants

/-! ### What is read is canonical -/

theorem of_takeIf {p : Subtag → Bool} {ss : List Subtag} {s : Subtag}
    (h : s ∈ (takeIf p ss).1) : p s = true := by
  cases ss with
  | nil => cases h
  | cons a as =>
    simp only [takeIf] at h
    by_cases hp : p a = true
    · rw [if_pos hp] at h
      cases h
      exact hp
    · rw [if_neg hp] at h
      cases h

theorem isCanonical_of_scanVariants? {before ss vs rest : List Subtag}
    (h : scanVariants? before ss = some (vs, rest))
    (hb : ∀ v ∈ before, v.isVariant = true ∧ v.lower = v) (hi : Subtag.Increasing before) :
    (∀ v ∈ vs, v.isVariant = true ∧ v.lower = v) ∧ Subtag.Increasing vs := by
  induction ss generalizing before with
  | nil =>
    simp only [scanVariants?, Option.some.injEq, Prod.mk.injEq] at h
    rw [← h.1]
    exact ⟨hb, hi⟩
  | cons s ss ih =>
    rw [scanVariants?] at h
    by_cases hs : s.isVariant = true
    · rw [if_neg (by simp [hs])] at h
      by_cases hm : s.lower ∈ before
      · rw [if_pos hm] at h
        cases h
      · rw [if_neg hm] at h
        refine ih h ?_ (Subtag.increasing_insertBy hi)
        intro v hv
        rcases Subtag.mem_insertBy hv with rfl | hv
        · exact ⟨(Subtag.isVariant_lower s).trans hs, Subtag.lower_lower s⟩
        · exact hb v hv
    · rw [if_pos (by simp [hs])] at h
      simp only [Option.some.injEq, Prod.mk.injEq] at h
      rw [← h.1]
      exact ⟨hb, hi⟩

theorem isCanonical_of_scan? {ss rest : List Subtag} {t : Identifier}
    (h : scan? ss = some (t, rest)) : t.IsCanonical := by
  cases ss with
  | nil => cases h
  | cons s ss =>
    rw [scan?] at h
    by_cases hs : s.isLanguage = true
    · rw [if_neg (by simp [hs])] at h
      obtain ⟨⟨vs, rest'⟩, hv, he⟩ := Option.map_eq_some_iff.mp h
      obtain ⟨rfl, -⟩ := Prod.mk.inj he
      obtain ⟨hvs, hi⟩ := isCanonical_of_scanVariants? hv (by simp) List.Pairwise.nil
      refine ⟨⟨(Subtag.isLanguage_lower s).trans hs, Subtag.lower_lower s⟩, ?_, ?_, hvs, hi⟩
      · intro a ha
        obtain ⟨b, hb, rfl⟩ := Option.map_eq_some_iff.mp ha
        have hb := of_takeIf (p := Subtag.isScript) hb
        exact ⟨Subtag.isScript_title hb, Subtag.title_title (Subtag.isAlphanum_of_isAlpha hb)⟩
      · intro a ha
        obtain ⟨b, hb, rfl⟩ := Option.map_eq_some_iff.mp ha
        have hb := of_takeIf (p := Subtag.isRegion) hb
        exact ⟨Subtag.isRegion_upper hb, Subtag.upper_upper (Subtag.isAlphanum_of_isRegion hb)⟩
    · rw [if_pos (by simp [hs])] at h
      cases h

/-! ### What is canonical is read back -/

theorem takeIf_toList_append {p : Subtag → Bool} {o : Option Subtag} {rest : List Subtag}
    (ho : ∀ s ∈ o, p s = true) (hrest : ∀ s ∈ rest.head?, p s = false) :
    takeIf p (o.toList ++ rest) = (o, rest) := by
  cases o with
  | some s => exact if_pos (ho s rfl)
  | none =>
    cases rest with
    | nil => rfl
    | cons s rest =>
      have hs : ¬ p s = true := by simp [hrest s rfl]
      exact if_neg hs

theorem scanVariants?_append {before vs rest : List Subtag}
    (hi : Subtag.Increasing (before ++ vs)) (hvs : ∀ v ∈ vs, v.isVariant = true ∧ v.lower = v)
    (hrest : ∀ s ∈ rest.head?, s.isVariant = false) :
    scanVariants? before (vs ++ rest) = some (before ++ vs, rest) := by
  induction vs generalizing before with
  | nil =>
    rw [List.nil_append, List.append_nil]
    cases rest with
    | nil => rfl
    | cons s rest =>
      rw [scanVariants?, if_pos (by simp [hrest s rfl])]
  | cons v vs ih =>
    obtain ⟨hv, hl⟩ := hvs v List.mem_cons_self
    have hbelow : ∀ b ∈ before, compare b v = .lt :=
      fun b hb => (List.pairwise_append.mp hi).2.2 b hb v List.mem_cons_self
    have hnew : v ∉ before := by
      intro hm
      have hvv : Ordering.lt = .eq := (hbelow v hm).symm.trans Std.ReflCmp.compare_self
      cases hvv
    rw [List.cons_append, scanVariants?, if_neg (by simp [hv]), hl, if_neg hnew,
      Subtag.insertBy_of_greater id hbelow, ← List.singleton_append (l := vs), ← List.append_assoc,
      ih]
    · rwa [List.append_assoc]
    · exact fun w hw => hvs w (List.mem_cons_of_mem v hw)

theorem mem_head?_append {as bs : List Subtag} {s : Subtag} (h : s ∈ (as ++ bs).head?) :
    s ∈ as ∨ s ∈ bs.head? := by
  cases as with
  | nil => exact .inr h
  | cons a as =>
    cases h
    exact .inl List.mem_cons_self

variable {t : Identifier} {rest : List Subtag}

theorem isRegion_eq_false_of_head (ht : t.IsCanonical) (hrest : ∀ s ∈ rest.head?, s.length = 1)
    {s : Subtag} (h : s ∈ (t.variants ++ rest).head?) : s.isRegion = false := by
  apply Subtag.isRegion_eq_false_of_length
  rcases mem_head?_append h with h | h
  · have hs := Subtag.isAlphanum_of_isVariant (ht.variants s h).1
    exact .inl (Subtag.isAlphanum_iff.mp hs).1
  · have hs := hrest s h
    omega

theorem isScript_eq_false_of_head (ht : t.IsCanonical) (hrest : ∀ s ∈ rest.head?, s.length = 1)
    {s : Subtag} (h : s ∈ (t.region.toList ++ (t.variants ++ rest)).head?) :
    s.isScript = false := by
  rcases mem_head?_append h with h | h
  · have hs := Subtag.isAlphanum_of_isRegion (ht.region s (Option.mem_toList.mp h)).1
    have hl := (Subtag.isAlphanum_iff.mp hs).2.1
    exact Subtag.isScript_eq_false_of_length (by omega)
  · rcases mem_head?_append h with h | h
    · exact Subtag.isScript_eq_false_of_isVariant (ht.variants s h).1
    · have hs := hrest s h
      exact Subtag.isScript_eq_false_of_length (by omega)

theorem map_eq_self {o : Option Subtag} {f : Subtag → Subtag} (h : ∀ s ∈ o, f s = s) :
    o.map f = o := by
  cases o with
  | none => rfl
  | some s => rw [Option.map_some, h s rfl]

/-- **The subtags of a canonical identifier are read back**, before anything that begins with a
single character. -/
theorem scan?_subtags_append (ht : t.IsCanonical) (hrest : ∀ s ∈ rest.head?, s.length = 1) :
    scan? (t.subtags ++ rest) = some (t, rest) := by
  have hsplit : t.subtags ++ rest =
      t.language :: (t.script.toList ++ (t.region.toList ++ (t.variants ++ rest))) := by
    simp [subtags]
  have hscript : takeIf Subtag.isScript
      (t.script.toList ++ (t.region.toList ++ (t.variants ++ rest))) =
        (t.script, t.region.toList ++ (t.variants ++ rest)) :=
    takeIf_toList_append (fun s hs => (ht.script s hs).1)
      fun _ hs => isScript_eq_false_of_head ht hrest hs
  have hregion : takeIf Subtag.isRegion (t.region.toList ++ (t.variants ++ rest)) =
      (t.region, t.variants ++ rest) :=
    takeIf_toList_append (fun s hs => (ht.region s hs).1)
      fun _ hs => isRegion_eq_false_of_head ht hrest hs
  have hvariants : scanVariants? [] (t.variants ++ rest) = some (t.variants, rest) := by
    show _ = some ([] ++ t.variants, rest)
    refine scanVariants?_append ?_ ht.variants ?_
    · exact ht.increasing
    · intro s hs
      have hs := hrest s hs
      exact Subtag.isVariant_eq_false_of_length (by omega)
  rw [hsplit, scan?, if_neg (by simp [ht.language.1]), hscript]
  simp only []
  rw [hregion]
  simp only []
  rw [hvariants, Option.map_some, ht.language.2, map_eq_self fun s hs => (ht.script s hs).2,
    map_eq_self fun s hs => (ht.region s hs).2]

end Numeral.Identifier
