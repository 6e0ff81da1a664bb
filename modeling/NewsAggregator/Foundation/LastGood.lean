import Mathlib.Logic.Function.Basic
import NewsAggregator.Foundation.Run

/-! Reads that may fail in front of a copy of the last one that worked: what a reply
holds, and of which read it is. -/

namespace Foundation

/-- What a read is answered: its own data, those of an earlier read, or nothing. -/
inductive Answer (α : Type*)
  | fresh (data : α)
  | stale (data : α)
  | unavailable

variable {κ α : Type*}

/-- The answer to a read under a key, which failed where it brings `none`. -/
def answerOf (copies : κ → Option α) : κ × Option α → Answer α
  | (_, some data) => .fresh data
  | (key, none) => (copies key).elim .unavailable .stale

/-- The read is the last one under the key that worked. -/
structure LastGood (reads : List (κ × Option α)) (key : κ) (data : α) : Prop where
  split : ∃ before after, reads = before ++ (key, some data) :: after ∧
    ∀ read ∈ after, read.1 = key → read.2 = none

theorem lastGood_concat {reads : List (κ × Option α)} {read : κ × Option α} {key : κ} {data : α} :
    LastGood (reads ++ [read]) key data ↔
      read = (key, some data) ∨ LastGood reads key data ∧ (read.1 = key → read.2 = none) := by
  constructor
  · rintro ⟨before, after, split, failed⟩
    rcases List.eq_nil_or_concat' after with rfl | ⟨init, last, rfl⟩
    · left
      exact List.singleton_inj.mp (List.append_inj' split rfl).2
    · right
      rw [← List.cons_append, ← List.append_assoc] at split
      obtain ⟨rfl, same⟩ := List.append_inj' split rfl
      obtain rfl := List.singleton_inj.mp same
      refine ⟨⟨before, init, rfl, fun other member => ?_⟩, failed read (by simp)⟩
      exact failed other (List.mem_append_left _ member)
  · rintro (rfl | ⟨⟨before, after, rfl, failed⟩, own⟩)
    · exact ⟨reads, [], rfl, by simp⟩
    · refine ⟨before, after ++ [read], by simp, fun other member => ?_⟩
      rcases List.mem_append.mp member with old | new
      · exact failed other old
      · rwa [List.mem_singleton.mp new]

variable [DecidableEq κ]

/-- The copies after a read. -/
def keepGood (copies : κ → Option α) : κ × Option α → κ → Option α
  | (key, some data) => Function.update copies key (some data)
  | (_, none) => copies

theorem keepGood_apply (copies : κ → Option α) (read : κ × Option α) (key : κ) :
    keepGood copies read key = if read.1 = key then read.2.or (copies key) else copies key := by
  obtain ⟨own, _ | data⟩ := read
  · simp [keepGood]
  · by_cases same : own = key
    · subst same
      simp [keepGood]
    · simp [keepGood, Function.update_of_ne (Ne.symm same), same]

/-- A copy is that of the last read under its key that worked. -/
theorem run_keepGood (reads : List (κ × Option α)) (key : κ) (data : α) :
    run keepGood (fun _ => none) reads key = some data ↔ LastGood reads key data := by
  induction reads using List.reverseRecOn with
  | nil =>
    constructor
    · exact nofun
    · rintro ⟨before, after, split, _⟩
      simp at split
  | append_singleton reads read ih =>
    rw [run_concat, keepGood_apply, lastGood_concat, ← ih]
    obtain ⟨own, _ | value⟩ := read
    · simp
    · by_cases same : own = key <;> simp [same]

/-- There is no copy as long as no read under the key worked. -/
theorem run_keepGood_none (reads : List (κ × Option α)) (key : κ) :
    run keepGood (fun _ => none) reads key = none ↔
      ∀ read ∈ reads, read.1 = key → read.2 = none := by
  induction reads using List.reverseRecOn with
  | nil => simp
  | append_singleton reads read ih =>
    rw [run_concat, keepGood_apply]
    rw [List.forall_mem_append, List.forall_mem_singleton, ← ih]
    by_cases same : read.1 = key <;> simp [same, and_comm]

/-- An answer is the own data of a read that worked, else those of the last one that
did, and it is refused where there is none. -/
structure Served (reads : List (κ × Option α)) (key : κ) (own : Option α) (answer : Answer α) :
    Prop where
  fresh : ∀ data, answer = .fresh data ↔ own = some data
  stale : ∀ data, answer = .stale data ↔ own = none ∧ LastGood reads key data
  unavailable : answer = .unavailable ↔
    own = none ∧ ∀ read ∈ reads, read.1 = key → read.2 = none

theorem served (reads : List (κ × Option α)) (key : κ) (own : Option α) :
    Served reads key own (answerOf (run keepGood (fun _ => none) reads) (key, own)) := by
  cases own with
  | some data =>
    refine ⟨fun other => ?_, fun other => ?_, ?_⟩
    · simp [answerOf]
    · simp [answerOf]
    · simp [answerOf]
  | none =>
    have last := run_keepGood reads key
    have never := run_keepGood_none reads key
    generalize run keepGood (fun _ => none) reads = copies at last never
    cases copied : copies key with
    | some data =>
      refine ⟨fun other => ?_, fun other => ?_, ?_⟩
      · simp [answerOf, copied]
      · simp [← last, answerOf, copied]
      · rw [← never]
        simp [answerOf, copied]
    | none =>
      refine ⟨fun other => ?_, fun other => ?_, ?_⟩
      · simp [answerOf, copied]
      · simp [← last, answerOf, copied]
      · rw [← never]
        simp [answerOf, copied]

end Foundation
