import Mathlib.Data.List.Perm.Lattice
import Mathlib.Data.List.Sort
import Mathlib.Order.Lattice

/-! Closeness in a sorted list: an element has a close one among all the others
exactly if one of its two neighbours is close. -/

namespace Foundation.Neighbors

variable {α : Type*} [LinearOrder α]

/-- What lies between two close elements is close to both; the smaller one stands first. -/
def Narrowing (near : α → α → Prop) : Prop :=
  ∀ first mid last, first ≤ mid → mid ≤ last → near first last → near first mid ∧ near mid last

/-- One of the others is close. -/
def Accompanied (near : α → α → Prop) (others : List α) (x : α) : Prop :=
  ∃ other ∈ others, near (min x other) (max x other)

/-- The element before or the element after is close. -/
def Adjacent (near : α → α → Prop) (prev : Option α) (x : α) (next : Option α) : Prop :=
  (∃ before ∈ prev, near before x) ∨ (∃ after ∈ next, near x after)

variable (near : α → α → Prop) [DecidableRel near]

instance Accompanied.decidable (others : List α) (x : α) : Decidable (Accompanied near others x) :=
  inferInstanceAs (Decidable (∃ other ∈ others, _))

instance Adjacent.decidable (prev : Option α) (x : α) (next : Option α) :
    Decidable (Adjacent near prev x next) :=
  inferInstanceAs (Decidable (_ ∨ _))

/-- How many elements have a close neighbour. -/
def companions : Option α → List α → ℕ
  | _, [] => 0
  | prev, x :: rest => (if Adjacent near prev x rest.head? then 1 else 0) + companions (some x) rest

variable {near} {before after others whole : List α} {x : α}

omit [DecidableRel near] in
theorem le_last (sorted : before.Pairwise (· ≤ ·)) {other prev : α} (member : other ∈ before)
    (last : prev ∈ before.getLast?) : other ≤ prev := by
  obtain ⟨init, rfl⟩ := List.getLast?_eq_some_iff.mp last
  rcases List.mem_append.mp member with inside | here
  · exact (List.pairwise_append.mp sorted).2.2 other inside prev (List.mem_singleton_self prev)
  · exact (List.mem_singleton.mp here).le

omit [DecidableRel near] in
theorem head_le (sorted : after.Pairwise (· ≤ ·)) {other next : α} (member : other ∈ after)
    (head : next ∈ after.head?) : next ≤ other := by
  obtain ⟨tail, rfl⟩ := List.head?_eq_some_iff.mp head
  rcases List.mem_cons.mp member with here | inside
  · exact here.ge
  · exact (List.pairwise_cons.mp sorted).1 other inside

omit [DecidableRel near] in
/-- An element close to one of the others is close to a neighbour on that side. -/
theorem accompanied_iff_adjacent (narrow : Narrowing near)
    (sorted : (before ++ x :: after).Pairwise (· ≤ ·)) :
    Accompanied near (before ++ after) x ↔ Adjacent near before.getLast? x after.head? := by
  obtain ⟨left, right, across⟩ := List.pairwise_append.mp sorted
  obtain ⟨above, right⟩ := List.pairwise_cons.mp right
  have below : ∀ other ∈ before, other ≤ x := fun other member =>
    across other member x List.mem_cons_self
  constructor
  · intro accompanied
    obtain ⟨other, member, close⟩ := accompanied
    rcases List.mem_append.mp member with earlier | later
    · obtain ⟨prev, last⟩ := Option.isSome_iff_exists.mp
        (List.getLast?_isSome.mpr (List.ne_nil_of_mem earlier))
      rw [min_eq_right (below other earlier), max_eq_left (below other earlier)] at close
      have between := le_last left earlier last
      have reached := below prev (List.mem_of_getLast? last)
      exact .inl ⟨prev, last, (narrow other prev x between reached close).2⟩
    · obtain ⟨next, head⟩ := Option.isSome_iff_exists.mp 
        (List.isSome_head?.mpr (List.ne_nil_of_mem later))
      rw [min_eq_left (above other later), max_eq_right (above other later)] at close
      have between := head_le right later head
      have reached := above next (List.mem_of_head? head)
      exact .inr ⟨next, head, (narrow x next other reached between close).1⟩
  · intro adjacent
    rcases adjacent with ⟨prev, last, close⟩ | ⟨next, head, close⟩
    · have member := List.mem_of_getLast? last
      have order := below prev member
      refine ⟨prev, List.mem_append_left _ member, ?_⟩
      rwa [min_eq_right order, max_eq_left order]
    · have member := List.mem_of_head? head
      have order := above next member
      refine ⟨next, List.mem_append_right _ member, ?_⟩
      rwa [min_eq_left order, max_eq_right order]

omit [DecidableRel near] in
theorem accompanied_congr (same : ∀ other, other ∈ others ↔ other ∈ whole) :
    Accompanied near others x ↔ Accompanied near whole x := by
  simp [Accompanied, same]

private theorem companions_from (narrow : Narrowing near)
    (sorted : (before ++ after).Pairwise (· ≤ ·)) :
    companions near before.getLast? after =
      after.countP fun x => Accompanied near ((before ++ after).erase x) x := by
  induction after generalizing before with
  | nil => rfl
  | cons x rest ih =>
    have grown : (before ++ [x]) ++ rest = before ++ x :: rest := by simp
    have here : Adjacent near before.getLast? x rest.head? ↔
        Accompanied near ((before ++ x :: rest).erase x) x := by
      rw [← accompanied_iff_adjacent narrow sorted]
      apply accompanied_congr
      have middle : List.Perm (before ++ x :: rest) (x :: (before ++ rest)) := List.perm_middle
      have erased := middle.erase x
      rw [List.erase_cons_head] at erased
      exact fun other => erased.mem_iff.symm
    have later := ih (grown ▸ sorted)
    rw [grown, List.getLast?_concat] at later
    rw [companions, later, List.countP_cons, Nat.add_comm]
    simp only [here, decide_eq_true_eq]

/-- Counting by neighbours counts the elements with a close one among all the others. -/
theorem companions_eq_countP (narrow : Narrowing near) (sorted : whole.Pairwise (· ≤ ·)) :
    companions near none whole = whole.countP fun x => Accompanied near (whole.erase x) x := by
  have counted := @companions_from α _ near _ [] whole narrow sorted
  rwa [List.getLast?_nil, List.nil_append] at counted

end Foundation.Neighbors
