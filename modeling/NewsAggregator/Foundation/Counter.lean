import Mathlib.Data.List.Nodup
import Mathlib.Data.List.Sort

/-! Counts of occurrences in the order of first occurrence: the dictionary a
tally is kept in. -/

namespace Foundation

structure Counter (α : Type*) where
  entries : List (α × ℕ)
  distinct : (entries.map Prod.fst).Nodup
  positive : ∀ entry ∈ entries, 0 < entry.2

namespace Counter

variable {α : Type*}

def empty : Counter α := ⟨[], List.nodup_nil, by simp⟩

def keys (counter : Counter α) : List α := counter.entries.map Prod.fst

variable [DecidableEq α]

def count (counter : Counter α) (a : α) : ℕ := (counter.entries.lookup a).getD 0

def bump (a : α) (entry : α × ℕ) : α × ℕ := if entry.1 = a then (entry.1, entry.2 + 1) else entry

theorem bump_fst (a : α) (entry : α × ℕ) : (bump a entry).1 = entry.1 := by
  rw [bump]
  split <;> rfl

theorem bump_snd_pos {a : α} {entry : α × ℕ} (positive : 0 < entry.2) : 0 < (bump a entry).2 := by
  rw [bump]
  split
  · exact Nat.succ_pos _
  · exact positive

/-- `counter[a] += 1`. -/
def add (counter : Counter α) (a : α) : Counter α :=
  if known : a ∈ counter.entries.map Prod.fst then
    { entries := counter.entries.map (bump a)
      distinct := by
        rw [List.map_map, show Prod.fst ∘ bump a = Prod.fst from funext (bump_fst a)]
        exact counter.distinct
      positive := by
        simp only [List.mem_map]
        rintro entry ⟨old, member, rfl⟩
        exact bump_snd_pos (counter.positive old member) }
  else
    { entries := counter.entries ++ [(a, 1)]
      distinct := by
        rw [List.map_append, List.nodup_append]
        refine ⟨counter.distinct, List.nodup_singleton _, fun b member c new same => known ?_⟩
        rw [List.map_singleton, List.mem_singleton] at new
        have own : b = a := same.trans new
        rwa [← own]
      positive := by
        intro entry member
        rcases List.mem_append.mp member with old | new
        · exact counter.positive entry old
        · rw [List.mem_singleton.mp new]
          exact Nat.one_pos }

def addAll (counter : Counter α) (as : List α) : Counter α := as.foldl add counter

/-- The `n` largest counts, equal ones in the order of first occurrence. -/
def mostCommon (counter : Counter α) (n : ℕ) : Counter α where
  entries := (counter.entries.insertionSort fun a b => b.2 ≤ a.2).take n
  distinct :=
    ((List.perm_insertionSort _ _).map Prod.fst |>.nodup_iff.mpr counter.distinct).sublist
      ((List.take_sublist _ _).map _)
  positive entry member := counter.positive entry <| (List.perm_insertionSort _ _).mem_iff.mp
    (List.mem_of_mem_take member)

theorem lookup_of_mem {entries : List (α × ℕ)} (distinct : (entries.map Prod.fst).Nodup) {a : α}
    {n : ℕ} (member : (a, n) ∈ entries) : entries.lookup a = some n := by
  induction entries with
  | nil => cases member
  | cons entry rest ih =>
    rw [List.map_cons, List.nodup_cons] at distinct
    rw [List.lookup_cons]
    rcases List.mem_cons.mp member with rfl | old
    · simp
    · have other : a ≠ entry.1 := fun same =>
        distinct.1 (same ▸ List.mem_map_of_mem (f := Prod.fst) old)
      rw [beq_false_of_ne other]
      exact ih distinct.2 old

theorem mem_entries {counter : Counter α} {a : α} {n : ℕ} :
    (a, n) ∈ counter.entries ↔ counter.count a = n ∧ 0 < n := by
  constructor
  · intro member
    refine ⟨?_, counter.positive _ member⟩
    rw [count, lookup_of_mem counter.distinct member, Option.getD_some]
  · rintro ⟨rfl, positive⟩
    unfold count at positive ⊢
    cases found : counter.entries.lookup a with
    | none =>
      rw [found] at positive
      exact absurd positive (lt_irrefl _)
    | some n =>
      obtain ⟨before, after, split, _⟩ := List.lookup_eq_some_iff.mp found
      rw [split, Option.getD_some]
      exact List.mem_append_right _ List.mem_cons_self

theorem mem_keys {counter : Counter α} {a : α} : a ∈ counter.keys ↔ counter.count a ≠ 0 := by
  rw [keys]
  rw [List.mem_map]
  constructor
  · rintro ⟨entry, member, rfl⟩
    obtain ⟨same, positive⟩ := mem_entries.mp member
    omega
  · intro counted
    exact ⟨(a, counter.count a), mem_entries.mpr ⟨rfl, Nat.pos_of_ne_zero counted⟩, rfl⟩

theorem lookup_map_bump (entries : List (α × ℕ)) (a b : α) :
    (entries.map (bump a)).lookup b = (entries.lookup b).map fun n => if b = a then n + 1 else n := by
  induction entries with
  | nil => rfl
  | cons entry rest ih =>
    obtain ⟨key, n⟩ := entry
    rw [List.map_cons, List.lookup_cons, List.lookup_cons, bump_fst, ih]
    by_cases same : b = key
    · subst same
      by_cases own : b = a <;> simp [bump, own]
    · rw [beq_false_of_ne same]

@[simp] theorem count_empty (a : α) : (empty : Counter α).count a = 0 := rfl

theorem count_add (counter : Counter α) (a b : α) :
    (counter.add a).count b = counter.count b + if b = a then 1 else 0 := by
  unfold add count
  split
  · rename_i known
    rw [lookup_map_bump]
    cases found : counter.entries.lookup b with
    | some n => by_cases same : b = a <;> simp [same]
    | none =>
      have absent : b ≠ a := by
        rintro rfl
        obtain ⟨entry, member, rfl⟩ := List.mem_map.mp known
        cases found.symm.trans (lookup_of_mem counter.distinct member)
      simp [absent]
  · rename_i absent
    rw [List.lookup_append]
    cases found : counter.entries.lookup b with
    | some n =>
      have known : b ≠ a := by
        rintro rfl
        obtain ⟨before, after, split, _⟩ := List.lookup_eq_some_iff.mp found
        exact absent (by simp [split])
      simp [known]
    | none =>
      by_cases same : b = a
      · simp [same]
      · rw [List.lookup_cons, beq_false_of_ne same]
        simp [same]

theorem count_addAll (counter : Counter α) (as : List α) (a : α) :
    (counter.addAll as).count a = counter.count a + as.count a := by
  rw [addAll]
  induction as generalizing counter with
  | nil => simp
  | cons head tail ih =>
    rw [List.foldl_cons, ih, count_add, List.count_cons]
    by_cases same : a = head
    · subst same
      simp
      omega
    · have different : head ≠ a := fun equal => same equal.symm
      simp [same, different]

end Counter

end Foundation
