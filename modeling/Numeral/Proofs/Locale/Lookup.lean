import Numeral.Proofs.Locale.Edits
import Numeral.Proofs.Locale.Extension

/-!
# The longest available beginning

A tag begins a text if it is all of it, or all of it before some hyphen (`Begins`); on subtags this
is being a prefix (`begins_iff`).  The lookup drops subtags from the end, and drops a single
character together with what stands behind it.  No subtag of an available tag is a single character,
so what is left out is not available (`suffix_shorten`), and the first tag that is found is the
longest one (`lookup_longest`).  The lookup ends whatever the text, as every round leaves fewer
subtags.
-/

namespace Numeral

/-- The tag is all of the text, or all of it before some hyphen. -/
def Begins (l text : String) : Prop := text = l ∨ ∃ rest, text = l ++ "-" ++ rest

theorem Begins.length_le {l text : String} (h : Begins l text) : l.length ≤ text.length := by
  rcases h with rfl | ⟨rest, rfl⟩
  · exact le_rfl
  · simp only [String.length_append]
    omega

/-- A beginning of a text that is no shorter is the text. -/
theorem Begins.eq_of_length_le {l text : String} (h : Begins l text)
    (hLength : text.length ≤ l.length) : l = text := by
  rcases h with rfl | ⟨rest, rfl⟩
  · rfl
  · have hHyphen : "-".length = 1 := rfl
    simp only [String.length_append, hHyphen] at hLength
    omega

/-- A beginning has the subtags at the start of the text. -/
theorem begins_iff {l text : String} : Begins l text ↔ Subtag.split l <+: Subtag.split text := by
  constructor
  · rintro (rfl | ⟨rest, rfl⟩)
    · exact List.prefix_rfl
    · rw [Subtag.split_append]
      exact List.prefix_append _ _
  · rintro ⟨ss, hss⟩
    have hText := congrArg Subtag.join hss
    rw [Subtag.join_split] at hText
    by_cases hne : ss = []
    · left
      rw [← hText, hne, List.append_nil, Subtag.join_split]
    · right
      have hSplit : Subtag.split (Subtag.join ss) = ss := Subtag.split_join hne fun s hs =>
        Subtag.not_mem_of_mem_split s (hss ▸ List.mem_append_right _ hs)
      refine ⟨Subtag.join ss, ?_⟩
      have hJoin := congrArg Subtag.join (Subtag.split_append l (Subtag.join ss))
      rw [hSplit, Subtag.join_split] at hJoin
      rw [← hText, ← hJoin]

namespace Database

variable {db : Database}

/-! ### Single characters -/

/-- No subtag of an available tag is a single character. -/
theorem IsCanonical.size_ne_one (hdb : db.IsCanonical) {l : String} (h : db.contains l = true) :
    ∀ s ∈ Subtag.split l, s.size ≠ 1 := by
  obtain ⟨t, ht, rfl⟩ := hdb.locales l h
  have hSubtags := LanguageTag.isAlphanum_mem_subtags ht
  have hSplit : Subtag.split t.baseName = t.id.subtags := by
    refine Subtag.split_join (List.cons_ne_nil _ _) fun s hs hHyphen => ?_
    exact (ne_hyphen_of_isAlphanum
      (LanguageTag.isAlphanum_of_mem_subtags ht s hs _ hHyphen)).1 rfl
  intro s hs
  rw [hSplit] at hs
  have hSize := Subtag.size_of_isAlphanum (hSubtags s hs)
  have hLength := (Subtag.isAlphanum_iff.mp (hSubtags s hs)).1
  omega

theorem shorten_suffix (s : Subtag) (rest : List Subtag) : shorten (s :: rest) <:+ s :: rest := by
  refine List.IsSuffix.trans ?_ (List.suffix_cons s rest)
  rcases rest with _ | ⟨a, _ | ⟨b, bs⟩⟩
  · exact List.suffix_rfl
  · exact List.suffix_rfl
  · rw [shorten]
    split
    · exact List.suffix_cons a _
    · exact List.suffix_rfl

/-- Shortening a text keeps the beginnings of it that have no single characters. -/
theorem suffix_shorten {s : Subtag} {rest ss : List Subtag} (h : ss <:+ s :: rest)
    (hne : ss ≠ s :: rest) (hSize : ∀ t ∈ ss, t.size ≠ 1) : ss <:+ shorten (s :: rest) := by
  have hRest : ss <:+ rest := (List.suffix_cons_iff.mp h).resolve_left hne
  rcases rest with _ | ⟨a, _ | ⟨b, bs⟩⟩
  · exact hRest
  · exact hRest
  · rw [shorten]
    split
    · rename_i hSingle
      -- the single character would be the last subtag of the beginning
      refine (List.suffix_cons_iff.mp hRest).resolve_left fun he => ?_
      exact hSize a (he ▸ List.mem_cons_self) hSingle
    · exact hRest

/-! ### The lookup -/

/-- What is found are subtags at the start of the text. -/
theorem exists_of_lookupReversed? {ss : List Subtag} {l : String}
    (h : db.lookupReversed? ss = some l) :
    ∃ found, found ≠ [] ∧ found <:+ ss ∧ Subtag.join found.reverse = l := by
  fun_induction db.lookupReversed? ss with
  | case1 => cases h
  | case2 s rest tag hc =>
    exact ⟨s :: rest, List.cons_ne_nil _ _, List.suffix_rfl, Option.some.inj h⟩
  | case3 s rest tag hc ih =>
    obtain ⟨found, hne, hSuffix, hJoin⟩ := ih h
    exact ⟨found, hne, hSuffix.trans (shorten_suffix s rest), hJoin⟩

/-- An available beginning is found, or a longer one before it. -/
theorem lookupReversed?_of_suffix {ss known : List Subtag} (h : known <:+ ss)
    (hSize : ∀ s ∈ known, s.size ≠ 1) (hContains : db.contains (Subtag.join known.reverse) = true)
    (hne : known ≠ []) :
    ∃ found, db.lookupReversed? ss = some (Subtag.join found.reverse) ∧ known <:+ found ∧
      found <:+ ss := by
  fun_induction db.lookupReversed? ss with
  | case1 => exact absurd (List.suffix_nil.mp h) hne
  | case2 s rest tag hc => exact ⟨s :: rest, rfl, h, List.suffix_rfl⟩
  | case3 s rest tag hc ih =>
    have hOther : known ≠ s :: rest := by
      rintro rfl
      exact hc hContains
    obtain ⟨found, hFound, hKnown, hSuffix⟩ := ih (suffix_shorten h hOther hSize)
    exact ⟨found, hFound, hKnown, hSuffix.trans (shorten_suffix s rest)⟩

theorem split_join_of_suffix {base : String} {found : List Subtag} (hne : found ≠ [])
    (h : found <:+ (Subtag.split base).reverse) :
    Subtag.split (Subtag.join found.reverse) = found.reverse :=
  Subtag.split_join (List.reverse_ne_nil_iff.mpr hne) fun s hs =>
    Subtag.not_mem_of_mem_split s (List.mem_reverse.mp (h.subset (List.mem_reverse.mp hs)))

/-- The lookup finds a beginning of the text. -/
theorem begins_of_lookup? {base l : String} (h : db.lookup? base = some l) : Begins l base := by
  obtain ⟨found, hne, hSuffix, rfl⟩ := exists_of_lookupReversed? h
  rw [begins_iff, split_join_of_suffix hne hSuffix, ← List.reverse_suffix, List.reverse_reverse]
  exact hSuffix

/-- **The lookup jumps over no available beginning**: each of them begins what is found. -/
theorem exists_lookup?_of_begins (hdb : db.IsCanonical) {base k : String}
    (hContains : db.contains k = true) (h : Begins k base) :
    ∃ l, db.lookup? base = some l ∧ Begins k l := by
  have hne : (Subtag.split k).reverse ≠ [] := List.reverse_ne_nil_iff.mpr (Subtag.split_ne_nil k)
  have hSize : ∀ s ∈ (Subtag.split k).reverse, s.size ≠ 1 :=
    fun s hs => hdb.size_ne_one hContains s (List.mem_reverse.mp hs)
  have hJoin : Subtag.join (Subtag.split k).reverse.reverse = k := by
    rw [List.reverse_reverse, Subtag.join_split]
  have hSuffix : (Subtag.split k).reverse <:+ (Subtag.split base).reverse :=
    List.reverse_suffix.mpr (begins_iff.mp h)
  obtain ⟨found, hFound, hKnown, hSuffix'⟩ :=
    lookupReversed?_of_suffix hSuffix hSize (hJoin.symm ▸ hContains) hne
  have hne' : found ≠ [] := by
    rintro rfl
    exact hne (List.suffix_nil.mp hKnown)
  refine ⟨_, hFound, ?_⟩
  rw [begins_iff, split_join_of_suffix hne' hSuffix', ← List.reverse_suffix, List.reverse_reverse]
  exact hKnown

/-- The longest available tag that begins the text. -/
structure IsLongestBeginning (db : Database) (base l : String) : Prop where
  available : l ∈ db.availableLocales
  begins : Begins l base
  longest : ∀ k ∈ db.availableLocales, Begins k base → k.length ≤ l.length

theorem lookup?_eq_some_iff (hdb : db.IsCanonical) {base l : String} :
    db.lookup? base = some l ↔ db.IsLongestBeginning base l := by
  constructor
  · intro h
    refine ⟨mem_availableLocales_iff.mpr (contains_of_lookupReversed? h), begins_of_lookup? h, ?_⟩
    intro k hk hBegins
    obtain ⟨l', hl', hLonger⟩ :=
      exists_lookup?_of_begins hdb (mem_availableLocales_iff.mp hk) hBegins
    obtain rfl := Option.some.inj (h.symm.trans hl')
    exact hLonger.length_le
  · intro h
    obtain ⟨l', hl', hLonger⟩ :=
      exists_lookup?_of_begins hdb (mem_availableLocales_iff.mp h.available) h.begins
    have hAvailable := mem_availableLocales_iff.mpr (contains_of_lookupReversed? hl')
    rw [hl', hLonger.eq_of_length_le (h.longest l' hAvailable (begins_of_lookup? hl'))]

theorem lookup?_eq_none_iff (hdb : db.IsCanonical) {base : String} :
    db.lookup? base = none ↔ ∀ l ∈ db.availableLocales, ¬ Begins l base := by
  constructor
  · intro h l hl hBegins
    obtain ⟨l', hl', -⟩ := exists_lookup?_of_begins hdb (mem_availableLocales_iff.mp hl) hBegins
    rw [h] at hl'
    cases hl'
  · intro h
    cases hl : db.lookup? base with
    | none => rfl
    | some l =>
      have hAvailable := mem_availableLocales_iff.mpr (contains_of_lookupReversed? hl)
      exact absurd (begins_of_lookup? hl) (h l hAvailable)

/-! ### Locales of the same language -/

/-- The least available tag of the same language, in the order of the bytes. -/
structure IsLeastOfLanguage (db : Database) (base l : String) : Prop where
  available : l ∈ db.availableLocales
  language : firstSubtag l = firstSubtag base
  least : ∀ k ∈ db.availableLocales, firstSubtag k = firstSubtag base → bytes l ≤ bytes k

/-- A beginning of a text is of the same language. -/
theorem firstSubtag_eq_of_begins {l base : String} (h : Begins l base) :
    firstSubtag l = firstSubtag base := by
  rcases h with rfl | ⟨rest, rfl⟩
  · rfl
  · have hText : (l ++ "-" ++ rest).toList = l.toList ++ '-' :: rest.toList := by simp
    rw [firstSubtag, firstSubtag, hText]
    induction l.toList with
    | nil => rfl
    | cons c cs ih =>
      rw [List.cons_append, List.takeWhile_cons, List.takeWhile_cons, ih]

theorem sameLanguage?_eq_some_iff {base l : String} :
    db.sameLanguage? base = some l ↔ db.IsLeastOfLanguage base l := by
  have hSorted := db.pairwise_availableLocales
  rw [sameLanguage?, List.find?_eq_some_iff_append]
  constructor
  · rintro ⟨hLanguage, before, behind, hSplit, hBefore⟩
    rw [hSplit, List.pairwise_append, List.pairwise_cons] at hSorted
    refine ⟨?_, beq_iff_eq.mp hLanguage, ?_⟩
    · rw [hSplit]
      exact List.mem_append_right _ List.mem_cons_self
    · intro k hk hk'
      rw [hSplit] at hk
      rcases List.mem_append.mp hk with hk | hk
      · have hOther := hBefore k hk
        rw [beq_iff_eq.mpr hk'] at hOther
        cases hOther
      · rcases List.mem_cons.mp hk with rfl | hk
        · exact List.le_refl _
        · exact List.le_of_lt (hSorted.2.1.1 k hk)
  · intro h
    obtain ⟨before, behind, hSplit⟩ := List.append_of_mem h.available
    refine ⟨beq_iff_eq.mpr h.language, before, behind, hSplit, ?_⟩
    intro k hk
    have hLess : bytes k < bytes l := by
      rw [hSplit, List.pairwise_append] at hSorted
      exact hSorted.2.2 k hk l List.mem_cons_self
    rw [Bool.not_eq_true', beq_eq_false_iff_ne]
    intro hLanguage
    have hLeast := h.least k (hSplit ▸ List.mem_append_left _ hk) hLanguage
    exact List.not_lt.mpr hLeast hLess

theorem sameLanguage?_eq_none_iff {base : String} :
    db.sameLanguage? base = none ↔
      ∀ l ∈ db.availableLocales, firstSubtag l ≠ firstSubtag base := by
  rw [sameLanguage?, List.find?_eq_none]
  simp only [beq_iff_eq, ne_eq]

/-- **A locale is matched with the longest available beginning of a base name.**  The lookup finds
it, whatever the text, and nothing where there is none.  The best fit finds the same, and where
there is none the least available tag of the same language. -/
theorem lookup_longest (hdb : db.Reachable) (base : String) :
    (∀ l, db.bestAvailable? base .lookup = some l ↔ db.IsLongestBeginning base l) ∧
    (db.bestAvailable? base .lookup = none ↔ ∀ l ∈ db.availableLocales, ¬ Begins l base) ∧
    (∀ l, db.bestAvailable? base .bestFit = some l ↔ db.IsLongestBeginning base l ∨
      (∀ k ∈ db.availableLocales, ¬ Begins k base) ∧ db.IsLeastOfLanguage base l) ∧
    (db.bestAvailable? base .bestFit = none ↔
      ∀ l ∈ db.availableLocales, firstSubtag l ≠ firstSubtag base) := by
  have hCanonical := isCanonical_of_reachable hdb
  refine ⟨?_, lookup?_eq_none_iff hCanonical, ?_, ?_⟩
  · intro l
    exact lookup?_eq_some_iff hCanonical
  · intro l
    rw [bestAvailable?, Option.or_eq_some_iff, lookup?_eq_some_iff hCanonical,
      lookup?_eq_none_iff hCanonical, sameLanguage?_eq_some_iff]
  · rw [bestAvailable?, Option.or_eq_none_iff, lookup?_eq_none_iff hCanonical,
      sameLanguage?_eq_none_iff]
    constructor
    · exact And.right
    · intro h
      exact ⟨fun l hl hBegins => h l hl (firstSubtag_eq_of_begins hBegins), h⟩

/-- Dropping the last subtag leaves a single character, which is dropped too.  Where no beginning is
available, the best fit is the first of two locales of the language. -/
theorem lookup_longest_austria :
    standard.Reachable ∧ standard.IsLongestBeginning "de-AT-x-private" "de" ∧
      standard.IsLeastOfLanguage "zh-Hans-SG" "zh-CN" := by
  have hFound : standard.bestAvailable? "de-AT-x-private" .lookup = some "de" := by decide +kernel
  have hFit : standard.bestAvailable? "zh-Hans-SG" .bestFit = some "zh-CN" := by decide +kernel
  have hOther : ¬ Begins "zh-CN" "zh-Hans-SG" := by
    rw [begins_iff]
    decide
  obtain ⟨hLookup, -⟩ := lookup_longest .standard "de-AT-x-private"
  obtain ⟨-, -, hBest, -⟩ := lookup_longest .standard "zh-Hans-SG"
  refine ⟨.standard, (hLookup "de").mp hFound, ?_⟩
  exact (((hBest "zh-CN").mp hFit).resolve_left fun h => hOther h.begins).2

end Database

end Numeral
