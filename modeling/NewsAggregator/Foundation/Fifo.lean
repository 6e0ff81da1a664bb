import Mathlib.Data.List.DropRight
import Mathlib.Data.List.Nodup
import Mathlib.Data.List.Perm.Subperm

/-! A bounded memory of keys that forgets the oldest ones first. -/

namespace Foundation.Fifo

variable {Key : Type*} [DecidableEq Key]

/-- The memory holds its keys oldest first. A new key comes last, and what is over the
capacity goes. -/
def remember (capacity : ℕ) (memory : List Key) (key : Key) : List Key :=
  let grown := if key ∈ memory then memory else memory ++ [key]
  grown.drop (grown.length - capacity)

/-- A key that is not held is remembered. -/
def visit (capacity : ℕ) (memory : List Key) (key : Key) : List Key :=
  if key ∈ memory then memory else remember capacity memory key

/-- The memory after visits in this order. -/
def visits (capacity : ℕ) (memory keys : List Key) : List Key :=
  keys.foldl (visit capacity) memory

/-- The key is held, and what came after it are different keys of the pool. -/
def Recent (pool memory : List Key) (key : Key) : Prop :=
  ∃ old newer, memory = old ++ key :: newer ∧ (key :: newer).Nodup ∧ key :: newer ⊆ pool

variable {capacity : ℕ} {memory pool : List Key} {key other : Key}

theorem remember_of_not_mem (absent : key ∉ memory) :
    remember capacity memory key = (memory ++ [key]).drop (memory.length + 1 - capacity) := by
  simp [remember, absent]

theorem mem_remember (member : other ∈ remember capacity memory key) :
    other = key ∨ other ∈ memory := by
  have kept := List.mem_of_mem_drop member
  split at kept
  · exact .inr kept
  · simpa [or_comm] using kept

theorem not_mem_remember (absent : other ∉ memory) (different : other ≠ key) :
    other ∉ remember capacity memory key :=
  fun member => (mem_remember member).elim different absent

omit [DecidableEq Key] in
theorem Recent.mem (recent : Recent pool memory key) : key ∈ memory := by
  obtain ⟨old, newer, rfl, _⟩ := recent
  simp

theorem recent_remember (positive : 0 < capacity) (absent : key ∉ memory) (member : key ∈ pool) :
    Recent pool (remember capacity memory key) key := by
  refine ⟨memory.drop (memory.length + 1 - capacity), [], ?_, by simp, by simpa using member⟩
  rw [remember_of_not_mem absent]
  apply List.drop_append_of_le_length
  omega

/-- A pool within the capacity does not push its own keys out. -/
theorem Recent.remember (recent : Recent pool memory key) (fits : pool.length ≤ capacity)
    (absent : other ∉ memory) (member : other ∈ pool) :
    Recent pool (remember capacity memory other) key := by
  obtain ⟨old, newer, rfl, distinct, inside⟩ := recent
  have fresh : other ∉ key :: newer := fun held => absent (List.mem_append_right _ held)
  have later : (key :: (newer ++ [other])).Nodup := by
    have apart := distinct.concat fresh
    simpa using apart
  have within : key :: (newer ++ [other]) ⊆ pool := by
    intro held present
    rw [← List.cons_append, List.mem_append, List.mem_singleton] at present
    rcases present with before | rfl
    · exact inside before
    · exact member
  have few : (key :: (newer ++ [other])).length ≤ capacity :=
    Nat.le_trans (later.subperm within).length_le fits
  refine ⟨old.drop ((old ++ key :: newer).length + 1 - capacity), newer ++ [other], ?_, later,
    within⟩
  rw [remember_of_not_mem absent, List.append_assoc, List.cons_append]
  apply List.drop_append_of_le_length
  simp only [List.length_append, List.length_cons, List.length_nil] at few ⊢
  omega

@[simp] theorem visits_nil (memory : List Key) : visits capacity memory [] = memory := rfl

@[simp] theorem visits_cons (key : Key) (keys : List Key) :
    visits capacity memory (key :: keys) = visits capacity (visit capacity memory key) keys := rfl

omit [DecidableEq Key] in
theorem length_rtake_le (history : List Key) : (history.rtake capacity).length ≤ capacity := by
  rw [List.rtake, List.length_drop]
  omega

omit [DecidableEq Key] in
/-- What a full memory has forgotten does not come back. -/
theorem rtake_rtake_concat (history : List Key) (key : Key) :
    (history.rtake capacity ++ [key]).rtake capacity = (history ++ [key]).rtake capacity := by
  cases capacity with
  | zero => simp
  | succ fewer =>
    have again : (history.rtake (fewer + 1)).rtake fewer = history.rtake fewer := by
      simp [List.rtake_eq_reverse_take_reverse, List.take_take]
    rw [List.rtake_concat_succ, List.rtake_concat_succ, again]

omit [DecidableEq Key] in
/-- A key is among the last ones when few came after it the last time. -/
theorem mem_rtake_iff {history : List Key} :
    key ∈ history.rtake capacity ↔ ∃ before after, history = before ++ key :: after ∧
      key ∉ after ∧ after.length < capacity := by
  constructor
  · intro member
    rw [List.rtake_eq_reverse_take_reverse, List.mem_reverse] at member
    obtain ⟨newer, older, split, fresh⟩ := List.eq_append_cons_of_mem member
    have whole : history.reverse = newer ++ key :: (older ++ history.reverse.drop capacity) := by
      rw [← List.cons_append, ← List.append_assoc, ← split, List.take_append_drop]
    have few : (newer ++ key :: older).length ≤ capacity := by
      rw [← split]
      apply List.length_take_le
    refine ⟨(older ++ history.reverse.drop capacity).reverse, newer.reverse, ?_, ?_, ?_⟩
    · have turned := congrArg List.reverse whole
      simpa using turned
    · simpa using fresh
    · simp only [List.length_append, List.length_cons, List.length_reverse] at few ⊢
      omega
  · intro recorded
    obtain ⟨before, after, rfl, _, few⟩ := recorded
    rw [List.rtake, List.drop_append_of_le_length]
    · simp
    · simp only [List.length_append, List.length_cons]
      omega

end Foundation.Fifo
