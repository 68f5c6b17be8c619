import Mathlib.Data.List.Induction
import Mathlib.Data.List.Nodup
import Numeral.Locale.Negotiation
import Numeral.Proofs.Locale.Spelling
import Numeral.Proofs.Outcome

/-!
# Canonical tags of a request

A request is brought into canonical form tag by tag, and of tags with the same text the first one
is kept (`canonicalize_eq`).  The text of a tag is read as that tag again and every spelling of it
as the same tag, so that a canonical request stays as it is (`canonicalize_stable`), unless a value
has the part `true` in capital letters (`not_canonical_true`).
-/

namespace Numeral

/-! ### Requests -/

/-- The fault of a requested tag: the tag, as it is given. -/
def malformed? (text : String) : Option String :=
  if (LanguageTag.parse? text).isSome then none else some text

theorem malformed?_eq_none_iff {text : String} :
    malformed? text = none ↔ (LanguageTag.parse? text).isSome = true := by
  rw [malformed?]
  cases LanguageTag.parse? text with
  | none => simp
  | some t => simp

/-- Adds a tag to others unless one of them has the same text. -/
def addTag (tags : List LanguageTag) (t : LanguageTag) : List LanguageTag :=
  if (tags.map (·.toText)).contains t.toText then tags else tags ++ [t]

/-- The first of the tags with the same text, for each text. -/
def distinct (tags : List LanguageTag) : List LanguageTag := tags.foldl addTag []

/-- **A request is brought into canonical form** unless a tag is malformed. -/
theorem canonicalize_eq (requested : Locales) :
    canonicalize requested = outcome (requested.findSome? malformed?)
      (distinct (requested.filterMap LanguageTag.parse?)) := by
  rw [distinct, List.foldl_filterMap]
  apply foldlM_eq_outcome
  intro tags text
  rw [malformed?]
  cases LanguageTag.parse? text with
  | none => rfl
  | some t => rfl

theorem canonicalize_eq_ok_iff {requested : Locales} {tags : List LanguageTag} :
    canonicalize requested = .ok tags ↔
      (∀ text ∈ requested, (LanguageTag.parse? text).isSome = true) ∧
        distinct (requested.filterMap LanguageTag.parse?) = tags := by
  rw [canonicalize_eq, outcome_eq_ok_iff, List.findSome?_eq_none_iff]
  simp only [malformed?_eq_none_iff]

/-! ### Tags with distinct texts -/

theorem distinct_concat (tags : List LanguageTag) (t : LanguageTag) :
    distinct (tags ++ [t]) = addTag (distinct tags) t := by
  rw [distinct, List.foldl_append]
  rfl

theorem addTag_of_mem {tags : List LanguageTag} {t : LanguageTag}
    (h : t.toText ∈ tags.map (·.toText)) : addTag tags t = tags :=
  if_pos (List.contains_iff_mem.mpr h)

theorem addTag_of_not_mem {tags : List LanguageTag} {t : LanguageTag}
    (h : t.toText ∉ tags.map (·.toText)) : addTag tags t = tags ++ [t] :=
  if_neg fun hc => h (List.contains_iff_mem.mp hc)

theorem nodup_distinct (tags : List LanguageTag) : ((distinct tags).map (·.toText)).Nodup := by
  induction tags using List.reverseRecOn with
  | nil => exact List.nodup_nil
  | append_singleton tags t ih =>
    rw [distinct_concat]
    by_cases h : t.toText ∈ (distinct tags).map (·.toText)
    · rwa [addTag_of_mem h]
    · rw [addTag_of_not_mem h, List.map_append, List.map_singleton, ← List.concat_eq_append]
      exact ih.concat h

theorem mem_of_mem_distinct {tags : List LanguageTag} {u : LanguageTag} (hu : u ∈ distinct tags) :
    u ∈ tags := by
  induction tags using List.reverseRecOn with
  | nil => exact hu
  | append_singleton tags t ih =>
    rw [distinct_concat] at hu
    by_cases h : t.toText ∈ (distinct tags).map (·.toText)
    · rw [addTag_of_mem h] at hu
      exact List.mem_append_left _ (ih hu)
    · rw [addTag_of_not_mem h] at hu
      rcases List.mem_append.mp hu with hu | hu
      · exact List.mem_append_left _ (ih hu)
      · exact List.mem_append_right _ hu

theorem toText_mem_distinct {tags : List LanguageTag} {u : LanguageTag} (hu : u ∈ tags) :
    u.toText ∈ (distinct tags).map (·.toText) := by
  induction tags using List.reverseRecOn with
  | nil => cases hu
  | append_singleton tags t ih =>
    rw [distinct_concat]
    by_cases h : t.toText ∈ (distinct tags).map (·.toText)
    · rw [addTag_of_mem h]
      rcases List.mem_append.mp hu with hu | hu
      · exact ih hu
      · rwa [List.mem_singleton.mp hu]
    · rw [addTag_of_not_mem h, List.map_append]
      rcases List.mem_append.mp hu with hu | hu
      · exact List.mem_append_left _ (ih hu)
      · exact List.mem_append_right _ (List.mem_map_of_mem hu)

theorem distinct_of_nodup {tags : List LanguageTag} (h : (tags.map (·.toText)).Nodup) :
    distinct tags = tags := by
  induction tags using List.reverseRecOn with
  | nil => rfl
  | append_singleton tags t ih =>
    rw [List.map_append, List.map_singleton, List.nodup_append] at h
    rw [distinct_concat, ih h.1, addTag_of_not_mem]
    intro ht
    exact h.2.2 _ ht _ List.mem_cons_self rfl

/-! ### Texts and spellings of a tag -/

namespace LanguageTag

/-- No value of the tag has the part `true`, which is so unless one is written in capital
letters. -/
def HasPlainValues (t : LanguageTag) : Prop :=
  ∀ k ∈ t.extension.keywords, UnicodeExtension.truth ∉ k.2

instance (t : LanguageTag) : Decidable t.HasPlainValues :=
  inferInstanceAs (Decidable (∀ k ∈ t.extension.keywords, UnicodeExtension.truth ∉ k.2))

variable {t t' : LanguageTag}

theorem withoutTrue_eq_self_iff : t.withoutTrue = t ↔ t.HasPlainValues := by
  have hKeyword : ∀ k : Subtag × List Subtag,
      UnicodeExtension.dropTrue k = k ↔ UnicodeExtension.truth ∉ k.2 := by
    intro k
    rw [UnicodeExtension.dropTrue, Prod.ext_iff, List.filter_eq_self]
    constructor
    · intro h hTrue
      exact absurd (h.2 _ hTrue) (by decide)
    · intro h
      refine ⟨rfl, fun r hr => ?_⟩
      rw [bne_iff_ne]
      rintro rfl
      exact h hr
  have hKeywords : t.extension.keywords.map UnicodeExtension.dropTrue = t.extension.keywords ↔
      ∀ k ∈ t.extension.keywords, UnicodeExtension.dropTrue k = k := by
    constructor
    · intro h
      exact List.map_inj_left.mp (h.trans (List.map_id _).symm)
    · intro h
      exact (List.map_congr_left h).trans (List.map_id _)
  rw [HasPlainValues, ← forall₂_congr fun k _ => hKeyword k, ← hKeywords, withoutTrue,
    UnicodeExtension.withoutTrue]
  constructor
  · intro h
    exact congrArg (·.extension.keywords) h
  · intro h
    rw [h]

/-- The text of a tag that has been read is read again, without the parts `true` of its values. -/
theorem parse?_toText_of_parse? {s : String} (h : parse? s = some t) :
    parse? t.toText = some t.withoutTrue :=
  parse?_toText (isCanonical_of_parse? h) (isCanonical_extension_of_parse? h)

/-- Every spelling of a tag is read, up to the parts `true` of values as the same tag. -/
theorem exists_parse?_respelled {s s' : String} (h : parse? s = some t)
    (hs : spelling s' = spelling s) :
    ∃ t', parse? s' = some t' ∧ t'.withoutTrue = t.withoutTrue := by
  have hRead := parse?_respelled hs
  rw [h, Option.map_some] at hRead
  exact Option.map_eq_some_iff.mp hRead

theorem baseName_eq_of_withoutTrue_eq (h : t'.withoutTrue = t.withoutTrue) :
    t'.baseName = t.baseName := by
  have hId : t'.withoutTrue.id = t.withoutTrue.id := by rw [h]
  rw [baseName, baseName]
  exact congrArg (fun id => Subtag.join (Identifier.subtags id)) hId

theorem eq_of_withoutTrue_eq (h : t'.withoutTrue = t.withoutTrue) (ht : t.HasPlainValues)
    (ht' : t'.HasPlainValues) : t' = t := by
  rwa [withoutTrue_eq_self_iff.mpr ht, withoutTrue_eq_self_iff.mpr ht'] at h

end LanguageTag

/-- No requested tag has a value with the part `true` in capital letters. -/
def HavePlainValues (requested : Locales) : Prop :=
  ∀ s ∈ requested, ∀ t ∈ LanguageTag.parse? s, t.HasPlainValues

variable {requested : Locales} {tags : List LanguageTag}

/-- A request in canonical form stays as it is. -/
theorem canonicalize_map_toText (h : canonicalize requested = .ok tags)
    (hPlain : HavePlainValues requested) : canonicalize (tags.map (·.toText)) = .ok tags := by
  obtain ⟨-, rfl⟩ := canonicalize_eq_ok_iff.mp h
  generalize hTags : distinct (requested.filterMap LanguageTag.parse?) = tags
  have hRead : ∀ t ∈ tags, LanguageTag.parse? t.toText = some t := by
    intro t ht
    rw [← hTags] at ht
    obtain ⟨s, hs, hParse⟩ := List.mem_filterMap.mp (mem_of_mem_distinct ht)
    rw [LanguageTag.parse?_toText_of_parse? hParse,
      LanguageTag.withoutTrue_eq_self_iff.mpr (hPlain s hs t hParse)]
  have hAll : (tags.map (·.toText)).filterMap LanguageTag.parse? = tags := by
    rw [List.filterMap_map]
    refine (List.filterMap_congr fun t ht => ?_).trans (List.filterMap_some)
    exact hRead t ht
  refine canonicalize_eq_ok_iff.mpr ⟨?_, ?_⟩
  · intro text hText
    obtain ⟨t, ht, rfl⟩ := List.mem_map.mp hText
    rw [hRead t ht]
    rfl
  · rw [hAll]
    apply distinct_of_nodup
    rw [← hTags]
    exact nodup_distinct _

/-- Of the tags with the same text one is kept. -/
theorem count_toText_canonicalize (h : canonicalize requested = .ok tags) {s : String}
    (hs : s ∈ requested) {t : LanguageTag} (ht : LanguageTag.parse? s = some t) :
    (tags.map (·.toText)).count t.toText = 1 := by
  obtain ⟨-, rfl⟩ := canonicalize_eq_ok_iff.mp h
  have hMem := toText_mem_distinct (List.mem_filterMap.mpr ⟨s, hs, ht⟩)
  exact List.count_eq_one_of_mem (nodup_distinct _) hMem

open LanguageTag (parse? spelling) in
/-- **Canonical form is stable, and the same for all spellings of a tag.**  The text of a tag is
read as that tag unless a value has the part `true` in capital letters, and up to such parts every
spelling of a tag is read as the same tag.  Without them a request in canonical form stays as it is,
and of the spellings of a tag one entry is kept. -/
theorem canonicalize_stable (requested : Locales) :
    (∀ s ∈ requested, ∀ t, parse? s = some t →
      (parse? t.toText = some t ↔ t.HasPlainValues) ∧
      ∀ s', spelling s' = spelling s →
        ∃ t', parse? s' = some t' ∧ t'.baseName = t.baseName ∧ t'.withoutTrue = t.withoutTrue ∧
          (t.HasPlainValues → t'.HasPlainValues → t' = t)) ∧
    ∀ tags, canonicalize requested = .ok tags → HavePlainValues requested →
      canonicalize (tags.map (·.toText)) = .ok tags ∧
      ∀ s ∈ requested, ∀ s' ∈ requested, spelling s' = spelling s →
        ∃ t, parse? s = some t ∧ parse? s' = some t ∧
          (tags.map (·.toText)).count t.toText = 1 := by
  refine ⟨?_, ?_⟩
  · intro s _ t ht
    refine ⟨?_, ?_⟩
    · rw [LanguageTag.parse?_toText_of_parse? ht, Option.some.injEq]
      exact LanguageTag.withoutTrue_eq_self_iff
    · intro s' hs
      obtain ⟨t', ht', h⟩ := LanguageTag.exists_parse?_respelled ht hs
      exact ⟨t', ht', LanguageTag.baseName_eq_of_withoutTrue_eq h, h,
        LanguageTag.eq_of_withoutTrue_eq h⟩
  · intro tags h hPlain
    refine ⟨canonicalize_map_toText h hPlain, ?_⟩
    intro s hs s' hs' hSpelling
    obtain ⟨t, ht⟩ := Option.isSome_iff_exists.mp ((canonicalize_eq_ok_iff.mp h).1 s hs)
    obtain ⟨t', ht', hSame⟩ := LanguageTag.exists_parse?_respelled ht hSpelling
    obtain rfl := LanguageTag.eq_of_withoutTrue_eq hSame (hPlain s hs t ht) (hPlain s' hs' t' ht')
    exact ⟨t', ht, ht', count_toText_canonicalize h hs ht⟩

/-- Two spellings of a tag with variants, an attribute and a value that has the part `true` in small
letters. -/
theorem canonicalize_stable_resian :
    ∃ requested tags,
      requested = ["SL_rozaj-1994-u-Attr-nu-LATN-kr-true-abc",
        "sl-ROZAJ_1994-U-attr_NU_latn_KR-true-Abc"] ∧
      canonicalize requested = .ok tags ∧ HavePlainValues requested ∧
      canonicalize (tags.map (·.toText)) = .ok tags ∧
      ∃ t, LanguageTag.parse? "SL_rozaj-1994-u-Attr-nu-LATN-kr-true-abc" = some t ∧
        LanguageTag.parse? t.toText = some t ∧ (tags.map (·.toText)).count t.toText = 1 := by
  generalize hRequested : ["SL_rozaj-1994-u-Attr-nu-LATN-kr-true-abc",
    "sl-ROZAJ_1994-U-attr_NU_latn_KR-true-Abc"] = requested
  have hRead : ∀ s ∈ requested, (LanguageTag.parse? s).isSome = true := by
    rw [← hRequested]
    decide +kernel
  have hPlain : HavePlainValues requested := by
    rw [← hRequested]
    unfold HavePlainValues
    decide +kernel
  have hTags := canonicalize_eq_ok_iff.mpr ⟨hRead, rfl⟩
  have hFirst : "SL_rozaj-1994-u-Attr-nu-LATN-kr-true-abc" ∈ requested := by
    rw [← hRequested]
    decide
  have hSecond : "sl-ROZAJ_1994-U-attr_NU_latn_KR-true-Abc" ∈ requested := by
    rw [← hRequested]
    decide
  obtain ⟨hTag, hRequest⟩ := canonicalize_stable requested
  obtain ⟨hStable, hOne⟩ := hRequest _ hTags hPlain
  obtain ⟨t, ht, -, hCount⟩ := hOne _ hFirst _ hSecond (by decide)
  have hText := (hTag _ hFirst t ht).1.mpr (hPlain _ hFirst t ht)
  exact ⟨requested, _, rfl, hTags, hPlain, hStable, t, ht, hText, hCount⟩

/-- The part `true` in capital letters is kept, and dropped from the text that it comes to.  So two
spellings of one tag are both kept. -/
theorem not_canonical_true :
    (¬ ∀ s t, LanguageTag.parse? s = some t →
      ∃ t', LanguageTag.parse? t.toText = some t' ∧ t'.toText = t.toText) ∧
    LanguageTag.spelling "en-u-nu-TRUE" = LanguageTag.spelling "en-u-nu-true" ∧
    ∃ tags, canonicalize ["en-u-nu-true", "en-u-nu-TRUE"] = .ok tags ∧
      tags.map (·.toText) = ["en-u-nu", "en-u-nu-true"] := by
  refine ⟨?_, by decide, ?_⟩
  · intro h
    have hRead : LanguageTag.parse? "en-u-nu-TRUE" =
        some ⟨⟨['e', 'n'], none, none, []⟩, ⟨[], [(['n', 'u'], [UnicodeExtension.truth])]⟩⟩ := by
      decide +kernel
    obtain ⟨t', ht', hText⟩ := h _ _ hRead
    rw [LanguageTag.parse?_toText_of_parse? hRead] at ht'
    obtain rfl := Option.some.inj ht'
    exact absurd hText (by decide)
  · have hRead : ∀ s ∈ ["en-u-nu-true", "en-u-nu-TRUE"],
        (LanguageTag.parse? s).isSome = true := by decide +kernel
    exact ⟨_, canonicalize_eq_ok_iff.mpr ⟨hRead, rfl⟩, by decide +kernel⟩

end Numeral
