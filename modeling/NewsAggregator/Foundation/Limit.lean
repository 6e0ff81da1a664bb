import Mathlib.Data.List.Sort

/-! A query with an order and a limit: what it answers, whatever settles the ties, and
what the first match of the answer is. -/

namespace Foundation

variable {α β : Type*} [LinearOrder β] {score : α → β} {limit : ℕ} {rows answer : List α}

/-- The answer holds `limit` of the rows, or all of them, best first; no row that is left
out is better than one that is answered. -/
structure Top (score : α → β) (limit : ℕ) (rows answer : List α) : Prop where
  ordered : answer.Pairwise fun a b => score b ≤ score a
  length : answer.length = min limit rows.length
  splits : ∃ left, (answer ++ left).Perm rows ∧ ∀ a ∈ answer, ∀ b ∈ left, score b ≤ score a

theorem Top.subset (top : Top score limit rows answer) : answer ⊆ rows := by
  obtain ⟨left, order, _⟩ := top.splits
  exact fun a member => order.subset (List.mem_append_left left member)

/-- Within the limit every row is answered. -/
theorem Top.mem_of_length_le (top : Top score limit rows answer) (few : rows.length ≤ limit)
    {a : α} (member : a ∈ rows) : a ∈ answer := by
  obtain ⟨left, order, _⟩ := top.splits
  have whole := order.length_eq
  rw [List.length_append, top.length, min_eq_right few] at whole
  have none : left = [] := List.length_eq_zero_iff.mp (by omega)
  rw [none, List.append_nil] at order
  exact order.symm.subset member

theorem Top.of_perm {others : List α} (top : Top score limit rows answer)
    (order : rows.Perm others) : Top score limit others answer := by
  obtain ⟨left, splits, below⟩ := top.splits
  exact ⟨top.ordered, top.length.trans (by rw [order.length_eq]), left, splits.trans order, below⟩

/-- Sorting and cutting answers the query. -/
theorem top_take (score : α → β) [DecidableRel fun a b : α => score b ≤ score a] (limit : ℕ)
    (rows : List α) :
    Top score limit rows ((rows.insertionSort fun a b => score b ≤ score a).take limit) := by
  have total : Std.Total fun a b : α => score b ≤ score a := ⟨fun a b => le_total _ _⟩
  have transitive : IsTrans α fun a b => score b ≤ score a :=
    ⟨fun a b c first second => second.trans first⟩
  generalize result : rows.insertionSort (fun a b => score b ≤ score a) = sorted
  have order : sorted.Perm rows := result ▸ List.perm_insertionSort _ rows
  have ordered : sorted.Pairwise fun a b => score b ≤ score a :=
    result ▸ List.pairwise_insertionSort _ rows
  refine ⟨ordered.sublist (List.take_sublist limit sorted), ?_, sorted.drop limit, ?_, ?_⟩
  · rw [List.length_take, order.length_eq]
  · rwa [List.take_append_drop]
  · rw [← List.take_append_drop limit sorted] at ordered
    exact (List.pairwise_append.mp ordered).2.2

/-- The first match of an answer is a best match. -/
theorem Top.find?_best (top : Top score limit rows answer) {accepts : α → Bool} {a : α}
    (found : answer.find? accepts = some a) :
    a ∈ answer ∧ accepts a ∧ ∀ b ∈ answer, accepts b → score b ≤ score a := by
  obtain ⟨accepted, before, after, split, rejected⟩ := List.find?_eq_some_iff_append.mp found
  refine ⟨List.mem_of_find?_eq_some found, accepted, fun b member holds => ?_⟩
  have ordered := top.ordered
  rw [split] at member ordered
  rcases List.mem_append.mp member with early | late
  · exact absurd holds (by simpa using rejected b early)
  · rcases List.mem_cons.mp late with rfl | later
    · exact le_refl _
    · exact (List.pairwise_cons.mp (List.pairwise_append.mp ordered).2.1).1 b later

end Foundation
