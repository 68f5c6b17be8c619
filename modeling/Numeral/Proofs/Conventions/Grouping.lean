import Numeral.Conventions.Writing
import Mathlib.Data.List.Basic

/-!
# Groups of three

Grouping keeps the digits and puts a separator behind some of them (`ungroup_groupDigits`).  Seen
from the text alone, it stands behind the digits that a positive multiple of three digits follows,
and nowhere else (`isGrouped_groupDigits`).  There is one such text for any digits
(`isGrouped_iff`).
-/

namespace Numeral

variable {α β : Type} {separator d : α} {ds text : List α}

theorem head?_groupDigits (separator : α) (ds : List α) :
    (groupDigits separator ds).head? = ds.head? := by
  cases ds with
  | nil => rfl
  | cons d ds =>
    rw [groupDigits]
    split <;> rfl

theorem map_groupDigits (f : α → β) (separator : α) (ds : List α) :
    (groupDigits separator ds).map f = groupDigits (f separator) (ds.map f) := by
  induction ds with
  | nil => rfl
  | cons d ds ih =>
    have hiff : ((ds.map f).length % 3 = 0 ∧ ds.map f ≠ []) ↔ (ds.length % 3 = 0 ∧ ds ≠ []) := by
      rw [List.length_map, ne_eq, List.map_eq_nil_iff]
    rw [groupDigits, List.map_cons, groupDigits]
    by_cases h : ds.length % 3 = 0 ∧ ds ≠ []
    · rw [if_pos h, if_pos (hiff.mpr h), List.map_cons, List.map_cons, ih]
    · rw [if_neg h, if_neg fun hd => h (hiff.mp hd), List.map_cons, ih]

theorem mem_groupDigits (h : d ∈ groupDigits separator ds) : d = separator ∨ d ∈ ds := by
  induction ds with
  | nil => exact Or.inr h
  | cons e ds ih =>
    rw [groupDigits] at h
    split at h
    · rcases List.mem_cons.mp h with rfl | h
      · exact Or.inr List.mem_cons_self
      · rcases List.mem_cons.mp h with rfl | h
        · exact Or.inl rfl
        · exact (ih h).imp_right (List.mem_cons_of_mem e)
    · rcases List.mem_cons.mp h with rfl | h
      · exact Or.inr List.mem_cons_self
      · exact (ih h).imp_right (List.mem_cons_of_mem e)

/-! ### Where separators stand -/

/-- A positive multiple of three of these digits follows. -/
def CompletesGroups (ds : List α) : Prop := 0 < ds.length ∧ 3 ∣ ds.length

theorem completesGroups_iff : CompletesGroups ds ↔ ds.length % 3 = 0 ∧ ds ≠ [] := by
  rw [CompletesGroups, List.length_pos_iff, Nat.dvd_iff_mod_eq_zero, and_comm]

variable [DecidableEq α]

/-- The digits of a text, without separators. -/
def ungroup (separator : α) (text : List α) : List α :=
  text.filter (· ≠ separator)

/-- Behind a digit stands a separator exactly if groups of three follow, and every separator stands
right behind a digit. -/
structure IsGrouped (separator : α) (text : List α) : Prop where
  behind_digit : ∀ as d bs, text = as ++ d :: bs → d ≠ separator →
    (bs.head? = some separator ↔ CompletesGroups (ungroup separator bs))
  digit_before : ∀ as bs, text = as ++ separator :: bs → ∃ d, as.getLast? = some d ∧ d ≠ separator

@[simp]
theorem ungroup_separator (separator : α) (text : List α) :
    ungroup separator (separator :: text) = ungroup separator text :=
  List.filter_cons_of_neg (by simp)

theorem ungroup_cons (hd : d ≠ separator) (text : List α) :
    ungroup separator (d :: text) = d :: ungroup separator text :=
  List.filter_cons_of_pos (by simpa using hd)

theorem not_mem_ungroup (separator : α) (text : List α) : separator ∉ ungroup separator text :=
  fun h => of_decide_eq_true (List.mem_filter.mp h).2 rfl

theorem ungroup_of_not_mem (h : separator ∉ ds) : ungroup separator ds = ds :=
  List.filter_eq_self.mpr fun _ he => decide_eq_true fun heq => h (heq ▸ he)

/-- Grouping keeps the digits. -/
theorem ungroup_groupDigits (h : separator ∉ ds) :
    ungroup separator (groupDigits separator ds) = ds := by
  induction ds with
  | nil => rfl
  | cons d ds ih =>
    have hd : d ≠ separator := (List.ne_of_not_mem_cons h).symm
    have hds := ih (List.not_mem_of_not_mem_cons h)
    rw [groupDigits]
    split
    · rw [ungroup_cons hd, ungroup_separator, hds]
    · rw [ungroup_cons hd, hds]

namespace IsGrouped

/-- What follows a separator does not start with another one. -/
theorem head?_ne_of_separator (as : List α) (h : IsGrouped separator (as ++ separator :: text)) :
    text.head? ≠ some separator := by
  intro hHead
  obtain ⟨bs, rfl⟩ := List.head?_eq_some_iff.mp hHead
  obtain ⟨d, hLast, hd⟩ := h.digit_before (as ++ [separator]) bs (List.append_cons as separator _)
  rw [List.getLast?_concat] at hLast
  exact hd (Option.some.inj hLast).symm

/-- A grouped text does not start with a separator. -/
theorem head?_ne (h : IsGrouped separator text) : text.head? ≠ some separator := by
  intro hHead
  obtain ⟨bs, rfl⟩ := List.head?_eq_some_iff.mp hHead
  obtain ⟨d, hLast, -⟩ := h.digit_before [] bs rfl
  cases hLast

/-- A digit goes before groups that do not call for a separator behind it. -/
theorem cons (h : IsGrouped separator text) (hd : d ≠ separator)
    (hNot : ¬ CompletesGroups (ungroup separator text)) : IsGrouped separator (d :: text) where
  behind_digit := by
    intro as e bs hText he
    rcases List.cons_eq_append_iff.mp hText with ⟨rfl, hCons⟩ | ⟨as', rfl, hTail⟩
    · obtain ⟨-, rfl⟩ := List.cons.inj hCons
      exact iff_of_false h.head?_ne hNot
    · exact h.behind_digit as' e bs hTail he
  digit_before := by
    intro as bs hText
    rcases List.cons_eq_append_iff.mp hText with ⟨rfl, hCons⟩ | ⟨as', rfl, hTail⟩
    · exact absurd (List.cons.inj hCons).1.symm hd
    · obtain ⟨e, hLast, he⟩ := h.digit_before as' bs hTail
      exact ⟨e, by rw [List.getLast?_cons, hLast, Option.getD_some], he⟩

/-- A digit and a separator go before groups of three. -/
theorem cons_separator (h : IsGrouped separator text) (hd : d ≠ separator)
    (hGroups : CompletesGroups (ungroup separator text)) :
    IsGrouped separator (d :: separator :: text) where
  behind_digit := by
    intro as e bs hText he
    rcases List.cons_eq_append_iff.mp hText with ⟨rfl, hCons⟩ | ⟨as', rfl, hTail⟩
    · obtain ⟨-, rfl⟩ := List.cons.inj hCons
      rw [ungroup_separator]
      exact iff_of_true rfl hGroups
    · rcases List.cons_eq_append_iff.mp hTail with ⟨rfl, hCons⟩ | ⟨as'', rfl, hTail'⟩
      · exact absurd (List.cons.inj hCons).1 he
      · exact h.behind_digit as'' e bs hTail' he
  digit_before := by
    intro as bs hText
    rcases List.cons_eq_append_iff.mp hText with ⟨rfl, hCons⟩ | ⟨as', rfl, hTail⟩
    · exact absurd (List.cons.inj hCons).1.symm hd
    · rcases List.cons_eq_append_iff.mp hTail with ⟨rfl, -⟩ | ⟨as'', rfl, hTail'⟩
      · exact ⟨d, rfl, hd⟩
      · obtain ⟨e, hLast, he⟩ := h.digit_before as'' bs hTail'
        exact ⟨e, by rw [List.getLast?_cons_cons, List.getLast?_cons, hLast, Option.getD_some], he⟩

/-- The rest of a grouped text is grouped, if it does not start with a separator. -/
theorem of_append (as : List α) (h : IsGrouped separator (as ++ text))
    (hHead : text.head? ≠ some separator) : IsGrouped separator text where
  behind_digit := fun as' e bs hText =>
    h.behind_digit (as ++ as') e bs (by rw [hText, List.append_assoc])
  digit_before := by
    intro as' bs hText
    have hne : as' ≠ [] := by
      rintro rfl
      exact hHead (congrArg List.head? hText)
    have hLast := h.digit_before (as ++ as') bs (by rw [hText, List.append_assoc])
    rwa [List.getLast?_append_of_ne_nil as hne] at hLast

end IsGrouped

theorem isGrouped_nil (separator : α) : IsGrouped separator [] where
  behind_digit := fun as d bs hText => absurd hText (by simp)
  digit_before := fun as bs hText => absurd hText (by simp)

/-- **Separators stand between groups of three.** -/
theorem isGrouped_groupDigits (h : separator ∉ ds) :
    IsGrouped separator (groupDigits separator ds) := by
  induction ds with
  | nil => exact isGrouped_nil separator
  | cons d ds ih =>
    have hd : d ≠ separator := (List.ne_of_not_mem_cons h).symm
    have hds := List.not_mem_of_not_mem_cons h
    rw [groupDigits]
    split
    · rename_i hGroups
      refine (ih hds).cons_separator hd ?_
      rwa [ungroup_groupDigits hds, completesGroups_iff]
    · rename_i hGroups
      refine (ih hds).cons hd ?_
      rwa [ungroup_groupDigits hds, completesGroups_iff]

/-- The digits of a grouped text and their number say where its separators stand. -/
theorem IsGrouped.groupDigits_ungroup (h : IsGrouped separator text) :
    groupDigits separator (ungroup separator text) = text := by
  induction hDigits : ungroup separator text generalizing text with
  | nil =>
    cases text with
    | nil => rfl
    | cons e text =>
      have he : e ≠ separator := fun heq => h.head?_ne (congrArg some heq)
      rw [ungroup_cons he] at hDigits
      cases hDigits
  | cons d ds ih =>
    cases text with
    | nil => cases hDigits
    | cons e text =>
      have he : e ≠ separator := fun heq => h.head?_ne (congrArg some heq)
      rw [ungroup_cons he] at hDigits
      obtain ⟨rfl, rfl⟩ := List.cons.inj hDigits
      have hIff := h.behind_digit [] e text rfl he
      rw [completesGroups_iff] at hIff
      rw [groupDigits]
      -- what follows the first digit is grouped, with or without the separator between them
      by_cases hHead : text.head? = some separator
      · obtain ⟨rest, rfl⟩ := List.head?_eq_some_iff.mp hHead
        have hRest : IsGrouped separator rest :=
          h.of_append [e, separator] (h.head?_ne_of_separator [e])
        rw [if_pos (hIff.mp hHead), ih hRest (ungroup_separator separator rest).symm]
      · have hRest : IsGrouped separator text := h.of_append [e] hHead
        rw [if_neg fun hGroups => hHead (hIff.mpr hGroups), ih hRest rfl]

/-- For any digits there is one grouped text. -/
theorem isGrouped_iff :
    IsGrouped separator text ↔ groupDigits separator (ungroup separator text) = text := by
  constructor
  · exact IsGrouped.groupDigits_ungroup
  · intro h
    rw [← h]
    exact isGrouped_groupDigits (not_mem_ungroup separator text)

instance (separator : α) (text : List α) : Decidable (IsGrouped separator text) :=
  decidable_of_iff _ isGrouped_iff.symm

example : IsGrouped ',' "1,234,567".toList ∧ ¬ IsGrouped ',' "12,34,567".toList := by decide

end Numeral
