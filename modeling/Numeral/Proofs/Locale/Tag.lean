import Numeral.Locale.Tag
import Numeral.Proofs.Locale.Identifier
import Numeral.Proofs.Text.Span

/-!
# Canonical tags

The base name of a tag is read back as its identifier alone.  A base name with a keyword for the
numbering system behind it is read back with that identifier and that keyword.
-/

namespace Numeral.LanguageTag

/-- The subtags of a text, underscores being read as hyphens. -/
def parts (s : String) : List Subtag := Subtag.split (s.map fun c => if c = '_' then '-' else c)

theorem parse?_eq (s : String) : parse? s = ofSubtags? (parts s) := rfl

theorem parts_append (a b : String) : parts (a ++ "-" ++ b) = parts a ++ parts b := by
  have hmap : (a ++ "-" ++ b).map (fun c => if c = '_' then '-' else c) =
      (a.map fun c => if c = '_' then '-' else c) ++ "-" ++
        (b.map fun c => if c = '_' then '-' else c) := by
    apply String.toList_injective
    simp
  rw [parts, hmap, Subtag.split_append]
  rfl

theorem parts_join {ss : List Subtag} (hne : ss ≠ [])
    (hss : ∀ s ∈ ss, ∀ c ∈ s, c.isAlphanum = true) : parts (Subtag.join ss) = ss := by
  have hmap : (Subtag.join ss).map (fun c => if c = '_' then '-' else c) = Subtag.join ss := by
    apply String.toList_injective
    rw [String.toList_map]
    refine (List.map_congr_left fun c hc => if_neg ?_).trans (List.map_id _)
    rcases Subtag.mem_join hc with rfl | ⟨s, hs, hc⟩
    · decide
    · exact (ne_hyphen_of_isAlphanum (hss s hs c hc)).2
  rw [parts, hmap]
  apply Subtag.split_join hne
  intro s hs hc
  exact (ne_hyphen_of_isAlphanum (hss s hs '-' hc)).1 rfl

theorem parts_of_isAlphanum {s : String} (h : ∀ c ∈ s.toList, c.isAlphanum = true) :
    parts s = [s.toList] := by
  have hs : s = Subtag.join [s.toList] := by simp [Subtag.join]
  rw [hs, parts_join (by simp) (by simpa using h)]
  simp [Subtag.join]

theorem parse?_eq_some {s : String} {t : LanguageTag} (h : parse? s = some t) :
    ∃ rest, Identifier.scan? (parts s) = some (t.id, rest) ∧
      (rest.take 1).all (·.size == 1) = true ∧ Extension.scan? [] rest = some t.extension := by
  rw [parse?_eq] at h
  simp only [ofSubtags?, Option.bind_eq_bind, Option.bind_eq_some_iff] at h
  obtain ⟨⟨id, rest⟩, hid, h⟩ := h
  by_cases hr : (rest.take 1).all (·.size == 1) = true
  · rw [if_pos hr] at h
    obtain ⟨e, he, h⟩ := Option.bind_eq_some_iff.mp h
    cases h
    exact ⟨rest, hid, hr, he⟩
  · rw [if_neg hr] at h
    cases h

theorem isCanonical_of_parse? {s : String} {t : LanguageTag} (h : parse? s = some t) :
    t.id.IsCanonical := by
  obtain ⟨rest, hid, -, -⟩ := parse?_eq_some h
  exact Identifier.isCanonical_of_scan? hid

variable {t : LanguageTag}

theorem isAlphanum_mem_subtags (ht : t.id.IsCanonical) :
    ∀ s ∈ t.id.subtags, s.isAlphanum 2 8 = true := by
  have hWiden : ∀ {s : Subtag} {m n : Nat}, 2 ≤ m → n ≤ 8 → s.isAlphanum m n = true →
      s.isAlphanum 2 8 = true := by
    intro s m n hm hn h
    obtain ⟨h1, h2, hs⟩ := Subtag.isAlphanum_iff.mp h
    exact Subtag.isAlphanum_iff.mpr ⟨hm.trans h1, h2.trans hn, hs⟩
  intro s hs
  simp only [Identifier.subtags, List.mem_append, List.mem_cons, Option.mem_toList] at hs
  rcases hs with ((rfl | hs) | hs) | hs
  · exact hWiden (by decide) (by decide) (Subtag.isAlphanum_of_isAlpha ht.language.1)
  · exact hWiden (by decide) (by decide) (Subtag.isAlphanum_of_isAlpha (ht.script s hs).1)
  · exact hWiden (by decide) (by decide) (Subtag.isAlphanum_of_isRegion (ht.region s hs).1)
  · exact hWiden (by decide) (by decide) (Subtag.isAlphanum_of_isVariant (ht.variants s hs).1)

theorem isAlphanum_of_mem_subtags (ht : t.id.IsCanonical) :
    ∀ s ∈ t.id.subtags, ∀ c ∈ s, c.isAlphanum = true :=
  fun s hs => (Subtag.isAlphanum_iff.mp (isAlphanum_mem_subtags ht s hs)).2.2

theorem parts_baseName (ht : t.id.IsCanonical) : parts t.baseName = t.id.subtags :=
  parts_join (by simp [Identifier.subtags]) (isAlphanum_of_mem_subtags ht)

theorem parse?_of_parts {s : String} {rest : List Subtag} (ht : t.id.IsCanonical)
    (hs : parts s = t.id.subtags ++ rest)
    (hrest : ∀ a ∈ rest.head?, a.length = 1 ∧ a.size = 1) :
    parse? s = (Extension.scan? [] rest).map fun e => ⟨t.id, e⟩ := by
  have hsingle : (rest.take 1).all (·.size == 1) = true := by
    cases rest with
    | nil => rfl
    | cons a rest => simp [(hrest a rfl).2]
  rw [parse?_eq, hs, ofSubtags?, Identifier.scan?_subtags_append ht fun a ha => (hrest a ha).1]
  simp only [Option.bind_eq_bind, Option.bind_some]
  rw [if_pos hsingle]
  cases Extension.scan? [] rest with
  | none => rfl
  | some e => rfl

/-- **The base name of a tag is read back** as its identifier alone. -/
theorem parse?_baseName (ht : t.id.IsCanonical) : parse? t.baseName = some ⟨t.id, .empty⟩ := by
  have hparts : parts t.baseName = t.id.subtags ++ [] := by
    rw [parts_baseName ht, List.append_nil]
  rw [parse?_of_parts ht hparts (by simp), Extension.scan?]
  rfl

/-- So it is with nothing behind it, which is how a tag without an extension is put together. -/
theorem parse?_baseName_append_empty (ht : t.id.IsCanonical) :
    parse? (t.baseName ++ "") = some ⟨t.id, .empty⟩ := by
  rw [String.append_empty]
  exact parse?_baseName ht

/-! ### A keyword for the numbering system -/

theorem parts_append_nu (ht : t.id.IsCanonical) (nu : String) :
    parts (t.baseName ++ "-u-nu-" ++ nu) = t.id.subtags ++ (['u'] :: ['n', 'u'] :: parts nu) := by
  have hsplit : t.baseName ++ "-u-nu-" ++ nu =
      t.baseName ++ "-" ++ ("u" ++ "-" ++ ("nu" ++ "-" ++ nu)) := by
    apply String.toList_injective
    simp
  have hu : parts "u" = [['u']] := parts_of_isAlphanum (by decide)
  have hnu : parts "nu" = [['n', 'u']] := parts_of_isAlphanum (by decide)
  rw [hsplit, parts_append, parts_append, parts_append, parts_baseName ht, hu, hnu]
  rfl

/-- Whatever the keyword is, the base name stays. -/
theorem baseName_of_parse?_append_nu (ht : t.id.IsCanonical) {nu : String} {t' : LanguageTag}
    (h : parse? (t.baseName ++ "-u-nu-" ++ nu) = some t') : t'.baseName = t.baseName := by
  rw [parse?_of_parts ht (parts_append_nu ht nu) (fun a ha => by cases ha; decide)] at h
  obtain ⟨e, -, rfl⟩ := Option.map_eq_some_iff.mp h
  rfl

/-- What types are as the parts of a value: the part `true` stands for no part. -/
def valueParts (rs : List Subtag) : List Subtag :=
  (rs.filter (· != ['t', 'r', 'u', 'e'])).map Subtag.lower

theorem scanKeywords?_nu {rs : List Subtag} (hrs : ∀ r ∈ rs, r.isType = true) :
    UnicodeExtension.scanKeywords? (['n', 'u'] :: rs) =
      some ([(['n', 'u'], valueParts rs)], []) := by
  have htake : rs.takeWhile Subtag.isType = rs := List.takeWhile_eq_self_iff.mpr hrs
  have hdrop : rs.dropWhile Subtag.isType = [] := List.dropWhile_eq_nil_iff.mpr hrs
  rw [UnicodeExtension.scanKeywords?, if_neg (by decide), if_neg (by decide), htake, hdrop,
    UnicodeExtension.scanKeywords?]
  rfl

theorem scan?_nu {rs : List Subtag} (hrs : ∀ r ∈ rs, r.isType = true) :
    Extension.scan? [] (['u'] :: ['n', 'u'] :: rs) =
      some ⟨[], [(['n', 'u'], valueParts rs)]⟩ := by
  have htake : (['n', 'u'] :: rs).takeWhile Subtag.isType = [] := rfl
  have hdrop : (['n', 'u'] :: rs).dropWhile Subtag.isType = ['n', 'u'] :: rs := rfl
  have hu : UnicodeExtension.scan? (['n', 'u'] :: rs) =
      some (⟨[], [(['n', 'u'], valueParts rs)]⟩, []) := by
    rw [UnicodeExtension.scan?, htake, hdrop, scanKeywords?_nu hrs]
    rfl
  have hone : Extension.scanOne? (Char.toLower 'u') (['n', 'u'] :: rs) =
      some (some ⟨[], [(['n', 'u'], valueParts rs)]⟩, []) := by
    rw [Extension.scanOne?, if_pos (by decide), hu]
    rfl
  rw [Extension.scan?, if_neg (by decide)]
  split
  · rename_i h
    rw [hone] at h
    cases h
  · rename_i h
    rw [hone] at h
    cases h
    rw [Extension.scan?]
    rfl

/-- Types behind the key for the numbering system are read, whatever they are. -/
theorem parse?_append_types (ht : t.id.IsCanonical) {nu : String} {rs : List Subtag}
    (hparts : parts nu = rs) (hrs : ∀ r ∈ rs, r.isType = true) :
    parse? (t.baseName ++ "-u-nu-" ++ nu) = some ⟨t.id, ⟨[], [(['n', 'u'], valueParts rs)]⟩⟩ := by
  rw [parse?_of_parts ht (parts_append_nu ht nu) (fun a ha => by cases ha; decide), hparts,
    scan?_nu hrs]
  rfl

/-- **A keyword for the numbering system is read back**, behind a base name. -/
theorem parse?_append_nu (ht : t.id.IsCanonical) {r : String} (hr : Subtag.isType r.toList = true)
    (hl : Subtag.lower r.toList = r.toList) :
    ∃ e, parse? (t.baseName ++ "-u-nu-" ++ r) = some ⟨t.id, e⟩ ∧
      (⟨t.id, e⟩ : LanguageTag).keyword? "nu" = some r := by
  have hparts : parts r = [r.toList] := parts_of_isAlphanum (Subtag.isAlphanum_iff.mp hr).2.2
  refine ⟨_, parse?_append_types ht hparts (by simpa using hr), ?_⟩
  by_cases h : r.toList = ['t', 'r', 'u', 'e']
  · have hr : r = "true" := String.toList_injective h
    subst hr
    rfl
  · have hvalue : valueParts [r.toList] = [r.toList] := by simp [valueParts, h, hl]
    rw [hvalue, keyword?, if_pos (by decide)]
    show some (Subtag.join [r.toList]) = some r
    simp [Subtag.join]

end Numeral.LanguageTag
