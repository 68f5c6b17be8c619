import Numeral.Locale.Identifier

/-!
# Extensions of language tags

What may follow a language identifier: extensions, each behind a letter that names its kind, at most
one of a kind.  Only the one behind `u` is kept.  The one behind `t` has fields after an optional
language identifier, the one behind `x` takes all the subtags that are left, and every other one
takes what is neither too short nor too long.
-/

namespace Numeral

/-- The attributes and keywords behind the letter `u`. -/
structure UnicodeExtension where
  /-- The attributes, sorted and without repetition. -/
  attributes : List Subtag
  /-- The keys with the parts of their values, sorted by key. -/
  keywords : List (Subtag × List Subtag)
  deriving DecidableEq, Repr

namespace UnicodeExtension

/-- The extension that holds nothing, which is not written. -/
def empty : UnicodeExtension := ⟨[], []⟩

def isEmpty (u : UnicodeExtension) : Bool := u.attributes.isEmpty && u.keywords.isEmpty

/-- Reads keywords as far as there are any: a key of two bytes, then the parts of its value.  The
part `true`, in small letters, stands for no part at all. -/
def scanKeywords? (ss : List Subtag) : Option (List (Subtag × List Subtag) × List Subtag) :=
  match ss with
  | [] => some ([], [])
  | k :: rest =>
    if k.size != 2 then some ([], k :: rest)
    else if !k.isKey then none
    else
      let parts := (rest.takeWhile Subtag.isType).filter (· != ['t', 'r', 'u', 'e'])
      (scanKeywords? (rest.dropWhile Subtag.isType)).map fun (keywords, rest) =>
        ((k.lower, parts.map Subtag.lower) :: keywords, rest)
termination_by ss.length
decreasing_by
  have := (List.dropWhile_suffix (l := rest) Subtag.isType).length_le
  simp only [List.length_cons]
  omega

/-- Reads the extension behind the letter `u`, which has an attribute or a keyword at least. -/
def scan? (ss : List Subtag) : Option (UnicodeExtension × List Subtag) := do
  let attributes := (ss.takeWhile Subtag.isType).map Subtag.lower
  let (keywords, rest) ← scanKeywords? (ss.dropWhile Subtag.isType)
  let u : UnicodeExtension := ⟨Subtag.sortBy id attributes, Subtag.sortBy Prod.fst keywords⟩
  if u.isEmpty then none else some (u, rest)

/-- The subtags of the extension, in their order; none if it holds nothing. -/
def subtags (u : UnicodeExtension) : List Subtag :=
  if u.isEmpty then []
  else ['u'] :: u.attributes ++ u.keywords.flatMap fun (k, parts) => k :: parts

theorem length_le_of_scanKeywords? {ss rest : List Subtag} {ks : List (Subtag × List Subtag)}
    (h : scanKeywords? ss = some (ks, rest)) : rest.length ≤ ss.length := by
  fun_induction scanKeywords? ss generalizing ks rest with
  | case1 =>
    simp only [Option.some.injEq, Prod.mk.injEq] at h
    simp [← h.2]
  | case2 =>
    simp only [Option.some.injEq, Prod.mk.injEq] at h
    simp [← h.2]
  | case3 => cases h
  | case4 k ss =>
    rename_i ih
    simp only [Option.map_eq_some_iff, Prod.exists] at h
    obtain ⟨ks', rest', hk, he⟩ := h
    simp only [Prod.mk.injEq] at he
    have h1 := ih hk
    have h2 := (List.dropWhile_suffix (l := ss) Subtag.isType).length_le
    simp only [List.length_cons, ← he.2]
    omega

theorem length_le_of_scan? {ss rest : List Subtag} {u : UnicodeExtension}
    (h : scan? ss = some (u, rest)) : rest.length ≤ ss.length := by
  simp only [scan?, Option.bind_eq_bind, Option.bind_eq_some_iff, Prod.exists] at h
  obtain ⟨ks, rest', hk, he⟩ := h
  split at he
  · cases he
  · simp only [Option.some.injEq, Prod.mk.injEq] at he
    have h1 := length_le_of_scanKeywords? hk
    have h2 := (List.dropWhile_suffix (l := ss) Subtag.isType).length_le
    rw [← he.2]
    omega

end UnicodeExtension

namespace Extension

/-- Skips fields as far as there are any: a key, then at least one part of a value. -/
def skipFields? (ss : List Subtag) : Option (List Subtag) :=
  match ss with
  | [] => some []
  | k :: rest =>
    if !k.isFieldKey then some (k :: rest)
    else if (rest.takeWhile Subtag.isType).isEmpty then none
    else skipFields? (rest.dropWhile Subtag.isType)
termination_by ss.length
decreasing_by
  have := (List.dropWhile_suffix (l := rest) Subtag.isType).length_le
  simp only [List.length_cons]
  omega

/-- Skips the extension behind the letter `t`. -/
def skipTransform? (ss : List Subtag) : Option (List Subtag) :=
  if (ss.take 1).any Subtag.isLanguage then
    (Identifier.scan? ss).bind fun (_, rest) => skipFields? rest
  else skipFields? ss

/-- Reads one extension behind the letter of its kind.  Only one behind `u` gives anything. -/
def scanOne? (kind : Char) (ss : List Subtag) : Option (Option UnicodeExtension × List Subtag) :=
  if kind = 'u' then (UnicodeExtension.scan? ss).map fun (u, rest) => (some u, rest)
  else if kind = 't' then (skipTransform? ss).map fun rest => (none, rest)
  else if kind = 'x' then if ss.all Subtag.isPrivate then some (none, []) else none
  else some (none, ss.dropWhile Subtag.isOpaque)

theorem length_le_of_skipFields? {ss rest : List Subtag} (h : skipFields? ss = some rest) :
    rest.length ≤ ss.length := by
  fun_induction skipFields? ss with
  | case1 => simp_all
  | case2 =>
    simp only [Option.some.injEq] at h
    simp [← h]
  | case3 => cases h
  | case4 k ss _ _ ih =>
    have h1 := ih h
    have h2 := (List.dropWhile_suffix (l := ss) Subtag.isType).length_le
    simp only [List.length_cons]
    omega

theorem length_le_of_skipTransform? {ss rest : List Subtag} (h : skipTransform? ss = some rest) :
    rest.length ≤ ss.length := by
  unfold skipTransform? at h
  split at h
  · simp only [Option.bind_eq_some_iff, Prod.exists] at h
    obtain ⟨t, rest', ht, hf⟩ := h
    have h1 := Identifier.length_lt_of_scan? ht
    have h2 := length_le_of_skipFields? hf
    omega
  · exact length_le_of_skipFields? h

theorem length_le_of_scanOne? {kind : Char} {ss rest : List Subtag} {u : Option UnicodeExtension}
    (h : scanOne? kind ss = some (u, rest)) : rest.length ≤ ss.length := by
  unfold scanOne? at h
  split at h
  · simp only [Option.map_eq_some_iff, Prod.exists, Prod.mk.injEq] at h
    obtain ⟨u', rest', hu, _, rfl⟩ := h
    exact UnicodeExtension.length_le_of_scan? hu
  · split at h
    · simp only [Option.map_eq_some_iff, Prod.mk.injEq] at h
      obtain ⟨rest', ht, _, rfl⟩ := h
      exact length_le_of_skipTransform? ht
    · split at h
      · split at h
        · simp only [Option.some.injEq, Prod.mk.injEq] at h
          simp [← h.2]
        · cases h
      · simp only [Option.some.injEq, Prod.mk.injEq] at h
        rw [← h.2]
        exact (List.dropWhile_suffix _).length_le

/-- Reads extensions to the end of the subtags.  The first letter of a subtag names the kind of the
extension behind it, and `before` holds the kinds read so far. -/
def scan? (before : List Char) (ss : List Subtag) : Option UnicodeExtension :=
  match ss with
  | [] => some UnicodeExtension.empty
  | [] :: _ => none
  | (c :: _) :: rest =>
    if !c.isAlpha || c.toLower ∈ before then none
    else
      match _h : scanOne? c.toLower rest with
      | none => none
      | some (found, rest) => (scan? (c.toLower :: before) rest).map fun u => found.getD u
termination_by ss.length
decreasing_by
  have := length_le_of_scanOne? _h
  simp only [List.length_cons]
  omega

end Extension

end Numeral
