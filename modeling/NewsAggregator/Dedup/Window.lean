import NewsAggregator.Dedup.Store
import NewsAggregator.Foundation.Fifo
import NewsAggregator.Foundation.Run

/-! What the per-process dedup store still knows after any sequence of calls. -/

namespace NewsAggregator.Dedup

open Foundation

/-- `while len(self._seen) > self._cap: self._seen.popitem(last=False)`. -/
def evict (cap : ℕ) : List String → List String
  | [] => []
  | oldest :: newer =>
    if (oldest :: newer).length > cap then evict cap newer else oldest :: newer

/-- `InMemoryDeduper.seen`. -/
def inMemorySeen (cap : ℕ) (key : String) (seen : List String) : Bool × List String :=
  if key ∈ seen then (true, seen) else (false, evict cap (seen ++ [key]))

/-- `self._seen` after the calls. -/
def remembered (cap : ℕ) (calls : List String) : List String :=
  run (fun seen key => (inMemorySeen cap key seen).2) [] calls

/-- What a call answers after the calls before it. -/
def answer (cap : ℕ) (calls : List String) (key : String) : Bool :=
  (inMemorySeen cap key (remembered cap calls)).1

/-- The keys the calls record: those whose call answers `False`, in this order. -/
def recordingsFrom (cap : ℕ) : List String → List String → List String
  | _, [] => []
  | seen, key :: rest =>
    match inMemorySeen cap key seen with
    | (true, after) => recordingsFrom cap after rest
    | (false, after) => key :: recordingsFrom cap after rest

/-- The recordings since the process started. -/
def recordings (cap : ℕ) (calls : List String) : List String := recordingsFrom cap [] calls

theorem evict_eq_rtake (cap : ℕ) (seen : List String) : evict cap seen = seen.rtake cap := by
  induction seen with
  | nil => simp [evict]
  | cons oldest newer ih =>
    unfold evict
    split
    next full =>
      have drops : newer.length + 1 - cap = newer.length - cap + 1 := by
        simp only [List.length_cons, gt_iff_lt] at full
        omega
      rw [ih, List.rtake, List.rtake, List.length_cons, drops, List.drop_succ_cons]
    next within =>
      have none : (oldest :: newer).length - cap = 0 := by omega
      rw [List.rtake, none, List.drop_zero]

theorem inMemorySeen_of_mem {cap : ℕ} {key : String} {seen : List String} (known : key ∈ seen) :
    inMemorySeen cap key seen = (true, seen) := if_pos known

theorem inMemorySeen_of_not_mem {cap : ℕ} {key : String} {seen : List String}
    (absent : key ∉ seen) :
    inMemorySeen cap key seen = (false, (seen ++ [key]).rtake cap) := by
  rw [inMemorySeen, if_neg absent, evict_eq_rtake]

/-- The bounded store is the one of the dictionary and its eviction loop. -/
theorem seen_inMemory (cap : ℕ) (positive : 0 < cap) (key : String) (seen : List String) :
    (inMemory cap positive).seen key seen = inMemorySeen cap key seen := by
  unfold Deduper.seen inMemory
  by_cases known : key ∈ seen
  · simp [known, inMemorySeen_of_mem known]
  · simp [known, inMemorySeen_of_not_mem known, List.rtake]

/-- The store holds the end of the history, and every call keeps it so. -/
theorem run_inMemorySeen (cap : ℕ) (history calls : List String) :
    run (fun seen key => (inMemorySeen cap key seen).2) (history.rtake cap) calls =
      (history ++ recordingsFrom cap (history.rtake cap) calls).rtake cap := by
  induction calls generalizing history with
  | nil => simp [recordingsFrom]
  | cons key rest ih =>
    rw [run_cons, recordingsFrom]
    by_cases known : key ∈ history.rtake cap
    · rw [inMemorySeen_of_mem known]
      exact ih history
    · rw [inMemorySeen_of_not_mem known, Fifo.rtake_rtake_concat]
      have later := ih (history ++ [key])
      rw [List.append_assoc, List.singleton_append] at later
      exact later

/-- The store holds the last recordings. -/
theorem remembered_eq_rtake (cap : ℕ) (calls : List String) :
    remembered cap calls = (recordings cap calls).rtake cap := by
  have whole := run_inMemorySeen cap [] calls
  simpa [remembered, recordings] using whole

theorem answer_iff_mem (cap : ℕ) (calls : List String) (key : String) :
    answer cap calls key = true ↔ key ∈ remembered cap calls := by
  by_cases known : key ∈ remembered cap calls
  · simp [answer, inMemorySeen_of_mem known, known]
  · simp [answer, inMemorySeen_of_not_mem known, known]

/-- After any calls the store is within the cap, a call answers `True` exactly if its
key was last recorded within the last `cap` recordings, and then nothing changes. -/
theorem remembers_last_recordings (cap : ℕ) (calls : List String) :
    (remembered cap calls).length ≤ cap ∧
      ∀ key, (answer cap calls key = true ↔
          ∃ before after, recordings cap calls = before ++ key :: after ∧ key ∉ after ∧
            after.length < cap) ∧
        (answer cap calls key = true → remembered cap (calls ++ [key]) = remembered cap calls) := by
  refine ⟨?_, fun key => ⟨?_, ?_⟩⟩
  · rw [remembered_eq_rtake]
    apply Fifo.length_rtake_le
  · rw [answer_iff_mem, remembered_eq_rtake]
    exact Fifo.mem_rtake_iff
  · intro known
    have held := (answer_iff_mem cap calls key).mp known
    have unchanged : (inMemorySeen cap key (remembered cap calls)).2 = remembered cap calls := by
      rw [inMemorySeen_of_mem held]
    rw [remembered, run_concat]
    exact unchanged

example : recordings 2 ["a", "b", "a", "c", "a"] = ["a", "b", "c", "a"] := by decide

end NewsAggregator.Dedup
