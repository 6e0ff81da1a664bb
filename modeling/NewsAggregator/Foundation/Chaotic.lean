import Mathlib.Data.Finset.Card
import Mathlib.Order.Bounds.Defs
import Mathlib.Order.Monotone.Defs
import Mathlib.Order.Basic
import NewsAggregator.Foundation.Run

/-! Chaotic iteration: the values of many indices are recomputed one at a time and in any
order, each from all the others, by a monotone operator. -/

namespace Foundation

variable {ι α : Type*} [DecidableEq ι]

/-- One value is recomputed from all of them. -/
def revise (operator : (ι → α) → ι → α) (values : ι → α) (index : ι) : ι → α :=
  Function.update values index (operator values index)

section Revise

variable {operator : (ι → α) → ι → α} {values : ι → α} {index : ι}

@[simp] theorem revise_self : revise operator values index index = operator values index :=
  Function.update_self ..

theorem revise_of_ne {other : ι} (different : other ≠ index) :
    revise operator values index other = values other :=
  Function.update_of_ne different ..

theorem run_revise_of_notMem {other : ι} {indices : List ι} (absent : other ∉ indices) :
    run (revise operator) values indices other = values other := by
  induction indices generalizing values with
  | nil => rfl
  | cons index rest ih =>
    rw [List.mem_cons, not_or] at absent
    rw [run_cons, ih absent.2, revise_of_ne absent.1]

end Revise

variable {operator : (ι → α) → ι → α} {scope : Finset ι} {values : ι → α} {index : ι}
  {indices : List ι}

/-- Recomputing changes no value of the scope. -/
def Settled (operator : (ι → α) → ι → α) (scope : Finset ι) (values : ι → α) : Prop :=
  ∀ index ∈ scope, operator values index = values index

theorem Settled.step (settled : Settled operator scope values) (member : index ∈ scope) :
    revise operator values index = values := by
  rw [revise, settled index member, Function.update_eq_self]

theorem Settled.along (settled : Settled operator scope values)
    (within : ∀ index ∈ indices, index ∈ scope) :
    run (revise operator) values indices = values := by
  induction indices with
  | nil => rfl
  | cons index rest ih =>
    rw [run_cons, settled.step (within index List.mem_cons_self)]
    exact ih fun other member => within other (List.mem_cons_of_mem index member)

section Order

variable [PartialOrder α]

/-- No value of the scope is above what it would be recomputed to. -/
def Rising (operator : (ι → α) → ι → α) (scope : Finset ι) (values : ι → α) : Prop :=
  ∀ index ∈ scope, values index ≤ operator values index

/-- The settled values above the given ones. -/
def settlements (operator : (ι → α) → ι → α) (scope : Finset ι) (values : ι → α) :
    Set (ι → α) :=
  {above | values ≤ above ∧ Settled operator scope above}

instance Rising.decidable [DecidableLE α] (operator : (ι → α) → ι → α) (scope : Finset ι)
    (values : ι → α) : Decidable (Rising operator scope values) :=
  inferInstanceAs (Decidable (∀ _ ∈ scope, _))

theorem Rising.le_revise (rising : Rising operator scope values) (member : index ∈ scope) :
    values ≤ revise operator values index := by
  intro other
  by_cases same : other = index
  · subst same
    rw [revise_self]
    exact rising other member
  · rw [revise_of_ne same]

theorem revise_le {bound : ι → α} (monotone : Monotone operator) (below : values ≤ bound)
    (closed : operator bound index ≤ bound index) : revise operator values index ≤ bound := by
  intro other
  by_cases same : other = index
  · subst same
    rw [revise_self]
    exact (monotone below other).trans closed
  · rw [revise_of_ne same]
    exact below other

theorem Rising.step (monotone : Monotone operator) (rising : Rising operator scope values)
    (member : index ∈ scope) : Rising operator scope (revise operator values index) := by
  have grown := monotone (rising.le_revise member)
  intro other inside
  by_cases same : other = index
  · subst same
    rw [revise_self]
    exact grown other
  · rw [revise_of_ne same]
    exact (rising other inside).trans (grown other)

theorem Rising.along (monotone : Monotone operator) (rising : Rising operator scope values)
    (within : ∀ index ∈ indices, index ∈ scope) :
    Rising operator scope (run (revise operator) values indices) ∧
      values ≤ run (revise operator) values indices := by
  induction indices generalizing values with
  | nil => exact ⟨rising, le_refl values⟩
  | cons index rest ih =>
    have member := within index List.mem_cons_self
    obtain ⟨later, grown⟩ := ih (rising.step monotone member)
      fun other inside => within other (List.mem_cons_of_mem index inside)
    exact ⟨later, (rising.le_revise member).trans grown⟩

theorem run_revise_le {bound : ι → α} (monotone : Monotone operator) (below : values ≤ bound)
    (closed : ∀ index ∈ indices, operator bound index ≤ bound index) :
    run (revise operator) values indices ≤ bound := by
  induction indices generalizing values with
  | nil => exact below
  | cons index rest ih =>
    refine ih (revise_le monotone below (closed index List.mem_cons_self)) ?_
    exact fun other member => closed other (List.mem_cons_of_mem index member)

/-- In whatever order the values are recomputed, where they settle is the least place. -/
theorem Rising.isLeast (monotone : Monotone operator) (rising : Rising operator scope values)
    (within : ∀ index ∈ indices, index ∈ scope)
    (settled : Settled operator scope (run (revise operator) values indices)) :
    IsLeast (settlements operator scope values)
      (run (revise operator) values indices) := by
  refine ⟨⟨(rising.along monotone within).2, settled⟩, ?_⟩
  rintro bound ⟨below, closed⟩
  exact run_revise_le monotone below fun index member => (closed index (within index member)).le

end Order

section Marks

variable [PartialOrder α] {mark : α → Prop}

/-- The operator looks at the marks of the values, and greater values keep their marks. -/
structure Marked (operator : (ι → α) → ι → α) (mark : α → Prop) : Prop where
  upward : ∀ low high, low ≤ high → mark low → mark high
  depends : ∀ first second : ι → α, (∀ index, mark (first index) ↔ mark (second index)) →
    operator first = operator second

/-- Every index of the scope is recomputed, and no other. -/
def Covers (scope : Finset ι) (indices : List ι) : Prop :=
  (∀ index ∈ indices, index ∈ scope) ∧ ∀ index ∈ scope, index ∈ indices

instance Covers.decidable (scope : Finset ι) (indices : List ι) :
    Decidable (Covers scope indices) :=
  inferInstanceAs (Decidable (_ ∧ _))

/-- Indices recomputed while no mark is added have settled. -/
theorem Rising.settled_of_same (marked : Marked operator mark) (monotone : Monotone operator)
    (rising : Rising operator scope values) (within : ∀ index ∈ indices, index ∈ scope)
    (same : ∀ index, mark (run (revise operator) values indices index) →
      mark (values index)) :
    ∀ index ∈ indices, operator (run (revise operator) values indices) index =
      run (revise operator) values indices index := by
  induction indices using List.reverseRecOn with
  | nil => simp
  | append_singleton before last ih =>
    have earlier : ∀ index ∈ before, index ∈ scope :=
      fun index member => within index (List.mem_append_left _ member)
    have inside : last ∈ scope := within last (by simp)
    obtain ⟨midRising, up⟩ := rising.along monotone earlier
    have next := midRising.le_revise inside
    rw [run_concat] at same ⊢
    have unmarked : ∀ index, mark (run (revise operator) values before
        index) → mark (values index) :=
      fun index held => same index (marked.upward _ _ (next index) held)
    have alike : operator (revise operator
        (run (revise operator) values before) last) =
          operator (run (revise operator) values before) := by
      apply marked.depends
      intro index
      constructor
      · exact fun held => marked.upward _ _ (up index) (same index held)
      · exact marked.upward _ _ (next index)
    intro index member
    rw [alike]
    by_cases final : index = last
    · subst final
      rw [revise_self]
    · rw [revise_of_ne final]
      refine ih earlier unmarked index ?_
      simpa [final] using member

variable [DecidablePred mark]

omit [DecidableEq ι] in
/-- A mark that is added leaves fewer indices to mark. -/
theorem Marked.card_unmarked_lt (marked : Marked operator mark) {later : ι → α}
    (grown : ∀ index, values index ≤ later index) (inside : index ∈ scope)
    (held : mark (later index)) (unmarked : ¬ mark (values index)) :
    (scope.filter fun index => ¬ mark (later index)).card <
      (scope.filter fun index => ¬ mark (values index)).card := by
  apply Finset.card_lt_card
  apply Finset.ssubset_iff_subset_ne.mpr
  constructor
  · intro other member
    obtain ⟨listed, still⟩ := Finset.mem_filter.mp member
    refine Finset.mem_filter.mpr ⟨listed, fun before => still ?_⟩
    exact marked.upward _ _ (grown other) before
  · intro equal
    have present : index ∈ scope.filter fun index => ¬ mark (values index) :=
      Finset.mem_filter.mpr ⟨inside, unmarked⟩
    rw [← equal] at present
    exact (Finset.mem_filter.mp present).2 held

/-- A round over the scope either settles it or adds a mark, so that it has settled after
one round more than there are indices to mark. -/
theorem Rising.settles (marked : Marked operator mark) (monotone : Monotone operator)
    {rounds : List (List ι)} (covers : ∀ round ∈ rounds, Covers scope round)
    (rising : Rising operator scope values)
    (many : (scope.filter fun index => ¬ mark (values index)).card < rounds.length) :
    Settled operator scope (run (revise operator) values rounds.flatten) := by
  induction rounds generalizing values with
  | nil => simp at many
  | cons round rest ih =>
    obtain ⟨within, all⟩ := covers round List.mem_cons_self
    have others : ∀ round ∈ rest, Covers scope round :=
      fun round member => covers round (List.mem_cons_of_mem _ member)
    obtain ⟨later, grown⟩ := rising.along monotone within
    rw [List.flatten_cons, run_append]
    by_cases same : ∀ index ∈ scope,
        mark (run (revise operator) values round index) →
          mark (values index)
    · have everywhere : ∀ index,
          mark (run (revise operator) values round index) →
            mark (values index) := by
        intro index held
        by_cases inside : index ∈ scope
        · exact same index inside held
        · rwa [run_revise_of_notMem fun member => inside (within index member)] at held
      have settled : Settled operator scope
          (run (revise operator) values round) := fun index inside =>
        rising.settled_of_same marked monotone within everywhere index (all index inside)
      rw [settled.along]
      · exact settled
      · intro index member
        obtain ⟨other, listed, inside⟩ := List.mem_flatten.mp member
        exact (others other listed).1 index inside
    · push Not at same
      obtain ⟨index, inside, held, unmarked⟩ := same
      refine ih others later ?_
      have fewer := marked.card_unmarked_lt grown inside held unmarked
      rw [List.length_cons] at many
      omega

end Marks

end Foundation
