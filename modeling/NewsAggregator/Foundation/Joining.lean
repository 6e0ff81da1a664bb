import Mathlib.Data.List.Basic

/-! Texts put together from parts, and how the parts are read back: prefix-free codes,
parts joined by a separator, and two parts cut at the first mark. -/

namespace Foundation

variable {α β : Type*}

/-- A code word can be read off the front of any text. -/
def PrefixFree (code : α → List β) : Prop :=
  ∀ a b rest rest', code a ++ rest = code b ++ rest' → a = b ∧ rest = rest'

theorem PrefixFree.flatMap_injective {code : α → List β} (free : PrefixFree code)
    (nonempty : ∀ a, code a ≠ []) : Function.Injective (List.flatMap code) := by
  intro first
  induction first with
  | nil =>
    intro second same
    cases second with
    | nil => rfl
    | cons b rest =>
      rw [List.flatMap_nil, List.flatMap_cons] at same
      exact absurd (List.append_eq_nil_iff.mp same.symm).1 (nonempty b)
  | cons a rest ih =>
    intro second same
    cases second with
    | nil =>
      rw [List.flatMap_nil, List.flatMap_cons] at same
      exact absurd (List.append_eq_nil_iff.mp same).1 (nonempty a)
    | cons b others =>
      obtain ⟨rfl, later⟩ := free a b _ _ same
      rw [ih later]

section Separator

variable [DecidableEq α] {separator : α}

/-- Parts that can be joined: not empty, and without the separator. -/
def Joinable (separator : α) (parts : List (List α)) : Prop :=
  ∀ part ∈ parts, part ≠ [] ∧ separator ∉ part

theorem splitOn_join {parts : List (List α)} (joinable : Joinable separator parts)
    (some : parts ≠ []) : ([separator].intercalate parts).splitOn separator = parts :=
  List.splitOn_intercalate separator (fun part member => (joinable part member).2) some

theorem join_eq_nil_iff {parts : List (List α)} (joinable : Joinable separator parts) :
    [separator].intercalate parts = [] ↔ parts = [] := by
  constructor
  · intro joined
    by_contra some
    have split := splitOn_join joinable some
    rw [joined, List.splitOn_nil] at split
    exact (joinable [] (split ▸ List.mem_singleton_self [])).1 rfl
  · rintro rfl
    rfl

/-- Such parts are read back from their join. -/
theorem join_inj {first second : List (List α)} (left : Joinable separator first)
    (right : Joinable separator second)
    (same : [separator].intercalate first = [separator].intercalate second) : first = second := by
  by_cases none : first = []
  · have empty : [separator].intercalate second = [] := by
      rw [← same, none]
      rfl
    rw [none, (join_eq_nil_iff right).mp empty]
  · have some : second ≠ [] := by
      rintro rfl
      exact none ((join_eq_nil_iff left).mp same)
    calc first = ([separator].intercalate first).splitOn separator := (splitOn_join left none).symm
      _ = ([separator].intercalate second).splitOn separator := by rw [same]
      _ = second := splitOn_join right some

end Separator

theorem takeWhile_stop {p : α → Bool} {mark : α} (stops : p mark = false) (before after : List α) :
    (before ++ mark :: after).takeWhile p = before.takeWhile p := by
  induction before with
  | nil => simp [stops]
  | cons first rest ih =>
    rw [List.cons_append, List.takeWhile_cons, List.takeWhile_cons, ih]

theorem dropWhile_stop {p : α → Bool} {mark : α} (stops : p mark = false) (before after : List α) :
    (before ++ mark :: after).dropWhile p = before.dropWhile p ++ mark :: after := by
  induction before with
  | nil => simp [stops]
  | cons first rest ih =>
    rw [List.cons_append, List.dropWhile_cons, List.dropWhile_cons, ih]
    split <;> rfl

/-- The text holds no mark before the cut, and none or one right after it. -/
structure Cut (marked : α → Bool) (before after : List α) : Prop where
  plain : ∀ a ∈ before, marked a = false
  starts : ∀ a ∈ after.head?, marked a = true

/-- A text is cut at its first mark in one way. -/
theorem Cut.unique {marked : α → Bool} {before after before' after' : List α}
    (left : Cut marked before after) (right : Cut marked before' after')
    (same : before ++ after = before' ++ after') : before = before' ∧ after = after' := by
  have read : ∀ {front back : List α}, Cut marked front back →
      (front ++ back).takeWhile (fun a => !marked a) = front := by
    intro front back cut
    rw [List.takeWhile_append_of_pos fun a member => by rw [cut.plain a member]; rfl]
    cases back with
    | nil => simp
    | cons first rest => simp [cut.starts first rfl]
  have equal : before = before' := (read left).symm.trans (same ▸ read right)
  subst equal
  exact ⟨rfl, List.append_cancel_left same⟩

end Foundation
