import Numeral.Proofs.Locale.FirstMatch

/-!
# Supported tags

The base names of the requested tags that are matched, each of them once, in the order in which they
are requested first.  Repeated tags are dropped twice on the way there, first by their texts and
then by their base names; both come to keeping the first occurrence of every base name
(`eraseDups_map_distinct`).

The lookup supports no tag that the best fit does not support, and what is agreed on is what the
first supported tag is matched with (`supported_agrees`).
-/

namespace Numeral

/-! ### First occurrences -/

section FirstOccurrences

variable {α : Type} [DecidableEq α]

theorem eraseDups_concat (as : List α) (b : α) :
    (as ++ [b]).eraseDups = if b ∈ as then as.eraseDups else as.eraseDups ++ [b] := by
  rw [List.eraseDups_append]
  by_cases h : b ∈ as
  · have hNone : [b].removeAll as = [] := by
      rw [List.cons_removeAll, List.nil_removeAll, if_neg (by simpa using h)]
    rw [if_pos h, hNone, List.eraseDups_nil, List.append_nil]
  · have hOne : [b].removeAll as = [b] := by
      rw [List.cons_removeAll, List.nil_removeAll, if_pos (by simpa using h)]
    rw [if_neg h, hOne]
    rfl

theorem head?_eraseDups (as : List α) : as.eraseDups.head? = as.head? := by
  cases as with
  | nil => rfl
  | cons a as => rw [List.eraseDups_cons, List.head?_cons, List.head?_cons]

theorem eraseDups_filter (p : α → Bool) (as : List α) :
    (as.filter p).eraseDups = as.eraseDups.filter p := by
  induction as using List.reverseRecOn with
  | nil => rfl
  | append_singleton as b ih =>
    rw [List.filter_append, eraseDups_concat]
    by_cases hp : p b = true
    · have hMem : b ∈ as.filter p ↔ b ∈ as := by
        rw [List.mem_filter, and_iff_left hp]
      have hOne : [b].filter p = [b] := by rw [List.filter_cons, if_pos hp, List.filter_nil]
      rw [hOne, eraseDups_concat, ih]
      by_cases h : b ∈ as
      · rw [if_pos h, if_pos (hMem.mpr h)]
      · rw [if_neg h, if_neg fun hb => h (hMem.mp hb), List.filter_append, hOne]
    · have hNone : [b].filter p = [] := by rw [List.filter_cons, if_neg hp, List.filter_nil]
      rw [hNone, List.append_nil, ih]
      split
      · rfl
      · rw [List.filter_append, hNone, List.append_nil]

/-- The elements of a list that have the property, each of them once and in the order in which they
occur first. -/
structure IsSelection (as : List α) (p : α → Prop) (found : List α) : Prop where
  mem_iff : ∀ a, a ∈ found ↔ a ∈ as ∧ p a
  nodup : found.Nodup
  ordered : found.Pairwise fun a b => as.idxOf a < as.idxOf b

theorem pairwise_idxOf_eraseDups (as : List α) :
    as.eraseDups.Pairwise fun a b => as.idxOf a < as.idxOf b := by
  induction as using List.reverseRecOn with
  | nil => exact List.Pairwise.nil
  | append_singleton as b ih =>
    -- what stands in the list already keeps its place, and a new element stands behind all of it
    have hPlace : ∀ a ∈ as.eraseDups, (as ++ [b]).idxOf a = as.idxOf a := by
      intro a ha
      rw [List.idxOf_append, if_pos (List.mem_eraseDups.mp ha)]
    have hOrdered : as.eraseDups.Pairwise fun a a' =>
        (as ++ [b]).idxOf a < (as ++ [b]).idxOf a' := by
      refine ih.imp_of_mem ?_
      intro a a' ha ha' h
      rwa [hPlace a ha, hPlace a' ha']
    rw [eraseDups_concat]
    split
    · exact hOrdered
    · rename_i hNew
      refine List.pairwise_append.mpr ⟨hOrdered, List.pairwise_singleton _ _, ?_⟩
      intro a ha b' hb'
      have hBefore := List.idxOf_lt_length_iff.mpr (List.mem_eraseDups.mp ha)
      rw [List.mem_singleton.mp hb', hPlace a ha, List.idxOf_append, if_neg hNew]
      omega

theorem isSelection_filter (as : List α) (p : α → Bool) :
    IsSelection as (p · = true) (as.eraseDups.filter p) := by
  have hOrdered := (pairwise_idxOf_eraseDups as).sublist (List.filter_sublist (p := p))
  refine ⟨?_, ?_, hOrdered⟩
  · intro a
    rw [List.mem_filter, List.mem_eraseDups]
  · refine hOrdered.imp ?_
    rintro a _ h rfl
    exact absurd h (lt_irrefl _)

end FirstOccurrences

/-- Of tags with the same text the first one is kept, and then of those with the same base name. -/
theorem eraseDups_map_distinct {α : Type} [DecidableEq α] {f : LanguageTag → α}
    {tags : List LanguageTag} (h : ∀ t ∈ tags, ∀ u ∈ tags, u.toText = t.toText → f u = f t) :
    ((distinct tags).map f).eraseDups = (tags.map f).eraseDups := by
  induction tags using List.reverseRecOn with
  | nil => rfl
  | append_singleton tags t ih =>
    have ih := ih fun u hu v hv => h u (List.mem_append_left _ hu) v (List.mem_append_left _ hv)
    rw [distinct_concat, List.map_append, List.map_singleton, eraseDups_concat]
    by_cases hText : t.toText ∈ (distinct tags).map (·.toText)
    · obtain ⟨u, hu, hSame⟩ := List.mem_map.mp hText
      have hu := mem_of_mem_distinct hu
      have hName : f t ∈ tags.map f := by
        rw [← h t (List.mem_append_right _ List.mem_cons_self) u (List.mem_append_left _ hu) hSame]
        exact List.mem_map_of_mem hu
      rw [addTag_of_mem hText, if_pos hName, ih]
    · have hMem : f t ∈ (distinct tags).map f ↔ f t ∈ tags.map f := by
        rw [← List.mem_eraseDups, ih, List.mem_eraseDups]
      rw [addTag_of_not_mem hText, List.map_append, List.map_singleton, eraseDups_concat, ih]
      simp only [hMem]

/-- The base names of the tags that are read from a request. -/
def baseNames (requested : Locales) : List String := (readTags requested).map (·.baseName)

namespace Database

variable {db : Database} {requested : Locales}

/-- Whether a base name is matched with an available locale. -/
def supports (db : Database) (matcher : LocaleMatcher) (base : String) : Bool :=
  (db.bestAvailable? base matcher).isSome

/-- The base names of a request that are supported, each of them once. -/
def supportedNames (db : Database) (requested : Locales) (matcher : LocaleMatcher) : List String :=
  (baseNames requested).eraseDups.filter (db.supports matcher)

theorem supportedTags_distinct (db : Database) (requested : Locales) (matcher : LocaleMatcher) :
    db.supportedTags (distinct (readTags requested)) matcher =
      db.supportedNames requested matcher := by
  show (((distinct (readTags requested)).map (·.baseName)).filter
    (db.supports matcher)).eraseDups = _
  rw [eraseDups_filter, eraseDups_map_distinct]
  · rfl
  · intro t ht u hu
    exact baseName_eq_of_mem_readTags ht hu

theorem supported_eq_ok (h : ∀ s ∈ requested, ¬ IsMalformed s) (matcher : LocaleMatcher) :
    db.supported requested matcher = .ok (db.supportedNames requested matcher) := by
  rw [← supportedTags_distinct, supported, canonicalize_eq, findSome?_malformed?_eq_none h]
  rfl

/-- The best fit supports what the lookup supports. -/
theorem supports_bestFit {base : String} (h : db.supports .lookup base = true) :
    db.supports .bestFit base = true := by
  obtain ⟨l, hl⟩ := Option.isSome_iff_exists.mp h
  have hLookup : db.lookup? base = some l := hl
  rw [supports, bestAvailable?, hLookup, Option.some_or, Option.isSome_some]

/-- The locale of the tag that decides is that of the first supported base name. -/
theorem map_fst_matched? (db : Database) (tags : List LanguageTag) (matcher : LocaleMatcher) :
    (db.matched? tags matcher).map Prod.fst =
      ((tags.map (·.baseName)).filter (db.supports matcher)).head?.bind
        (db.bestAvailable? · matcher) := by
  induction tags with
  | nil => rfl
  | cons t tags ih =>
    rw [matched?, List.findSome?_cons, List.map_cons, List.filter_cons]
    cases hl : db.bestAvailable? t.baseName matcher with
    | none =>
      have hNot : ¬ db.supports matcher t.baseName = true := by
        rw [supports, hl]
        exact Bool.false_ne_true
      rw [if_neg hNot]
      exact ih
    | some l =>
      have hYes : db.supports matcher t.baseName = true := by
        rw [supports, hl]
        rfl
      rw [if_pos hYes, List.head?_cons, Option.bind_some, hl]
      rfl

/-- The first supported base name is matched with the locale that is agreed on, and the default
locale is agreed on where there is none. -/
theorem locale_decision_eq (db : Database) (requested : Locales) (matcher : LocaleMatcher)
    (extensions : Std.TreeMap String String) :
    (db.decision extensions (db.matched? (readTags requested) matcher)).locale =
      ((db.supportedNames requested matcher).head?.bind (db.bestAvailable? · matcher)).getD
        db.defaultLocale := by
  rw [locale_decision, map_fst_matched?, supportedNames, ← eraseDups_filter, head?_eraseDups]
  rfl

/-- **What is supported agrees with what is agreed on.**  The supported base names are those of the
requested tags that are matched, each of them once and in the order in which they are requested
first.  The lookup supports some of those that the best fit supports, in the same order.  The locale
that is agreed on is the default one if none is supported, and else what the first of them is
matched with. -/
theorem supported_agrees (db : Database) (h : ∀ s ∈ requested, ¬ IsMalformed s) :
    (∃ byLookup byFit, db.supported requested .lookup = .ok byLookup ∧
      db.supported requested .bestFit = .ok byFit ∧ byLookup.Sublist byFit) ∧
    ∀ matcher, ∃ found, db.supported requested matcher = .ok found ∧
      IsSelection (baseNames requested) (fun base => ∃ l, db.bestAvailable? base matcher = some l)
        found ∧
      ∀ extensions, ∃ n, db.resolve requested extensions matcher = .ok n ∧
        (found = [] → n.locale = db.defaultLocale) ∧
        ∀ first ∈ found.head?, db.bestAvailable? first matcher = some n.locale := by
  refine ⟨⟨_, _, supported_eq_ok h .lookup, supported_eq_ok h .bestFit, ?_⟩, ?_⟩
  · exact List.monotone_filter_right _ fun base => supports_bestFit
  · intro matcher
    have hSelection : IsSelection (baseNames requested)
        (fun base => ∃ l, db.bestAvailable? base matcher = some l)
        (db.supportedNames requested matcher) := by
      simp only [← Option.isSome_iff_exists]
      exact isSelection_filter (baseNames requested) (db.supports matcher)
    refine ⟨_, supported_eq_ok h matcher, hSelection, ?_⟩
    intro extensions
    have hLocale := db.locale_decision_eq requested matcher extensions
    refine ⟨_, resolve_eq_ok h extensions, ?_, ?_⟩
    · intro hNone
      rw [hLocale, hNone]
      rfl
    · intro first hFirst
      obtain ⟨-, l, hl⟩ := (hSelection.mem_iff first).mp (List.mem_of_mem_head? hFirst)
      rw [hLocale, Option.mem_def.mp hFirst, Option.bind_some, hl, Option.getD_some]

/-- Of two spellings of a tag one is kept, and the best fit supports one more language than the
lookup. -/
theorem supported_agrees_austria :
    ∃ requested, requested = ["ja", "de-at", "DE_at-u-nu-latn", "en_GB"] ∧
      (∀ s ∈ requested, ¬ IsMalformed s) ∧
      standard.supported requested .lookup = .ok ["de-AT", "en-GB"] ∧
      standard.supported requested .bestFit = .ok ["ja", "de-AT", "en-GB"] ∧
      ∀ extensions, ∃ n,
        standard.resolve requested extensions .lookup = .ok n ∧ n.locale = "de" := by
  generalize hRequested : ["ja", "de-at", "DE_at-u-nu-latn", "en_GB"] = requested
  have hRead : ∀ s ∈ requested, ¬ IsMalformed s := by
    rw [← hRequested]
    decide +kernel
  have hNames : baseNames requested = ["ja", "de-AT", "de-AT", "en-GB"] := by
    rw [← hRequested]
    decide +kernel
  have hLookup : standard.supportedNames requested .lookup = ["de-AT", "en-GB"] := by
    rw [supportedNames, hNames]
    decide +kernel
  have hFit : standard.supportedNames requested .bestFit = ["ja", "de-AT", "en-GB"] := by
    rw [supportedNames, hNames]
    decide +kernel
  have hAustria : standard.bestAvailable? "de-AT" .lookup = some "de" := by decide +kernel
  obtain ⟨-, hAgrees⟩ := supported_agrees standard hRead
  obtain ⟨found, hFound, -, hLocale⟩ := hAgrees .lookup
  obtain rfl := Except.ok.inj ((supported_eq_ok hRead .lookup).symm.trans hFound)
  have hBest := @supported_eq_ok standard _ hRead .bestFit
  rw [hFit] at hBest
  rw [hLookup] at hFound hLocale
  refine ⟨requested, rfl, hRead, hFound, hBest, ?_⟩
  intro extensions
  obtain ⟨n, hn, -, hFirst⟩ := hLocale extensions
  have hSame := hFirst "de-AT" rfl
  exact ⟨n, hn, Option.some.inj (hSame.symm.trans hAustria)⟩

end Database

end Numeral
