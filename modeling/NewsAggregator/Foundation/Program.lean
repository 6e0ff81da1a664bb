import Mathlib.Data.Nat.Notation

/-! Programs of atomic statements over a shared state. A program is run by one
caller, who may be cut off between any two statements, or advanced statement by
statement in a pool of callers. -/

namespace Foundation

/-- A statement is indexed by the type of its answer. -/
inductive Program (Stmt : Type → Type) (α : Type) : Type 1 where
  | done (value : α)
  | raise
  | call {β : Type} (stmt : Stmt β) (next : β → Program Stmt α)

/-- What a statement answers and does to the state. -/
abbrev Semantics (Stmt : Type → Type) (σ : Type) := ∀ β, Stmt β → σ → β × σ

namespace Program

variable {Stmt : Type → Type} {σ α β : Type}

def bind (program : Program Stmt α) (next : α → Program Stmt β) : Program Stmt β :=
  match program with
  | .done value => next value
  | .raise => .raise
  | .call stmt rest => .call stmt fun answer => (rest answer).bind next

instance : Monad (Program Stmt) where
  pure := .done
  bind := .bind

@[simp] theorem pure_eq (value : α) : (pure value : Program Stmt α) = .done value := rfl

@[simp] theorem done_bind (value : α) (next : α → Program Stmt β) :
    (Program.done value >>= next) = next value := rfl

@[simp] theorem call_bind {γ : Type} (stmt : Stmt γ) (rest : γ → Program Stmt α)
    (next : α → Program Stmt β) :
    (Program.call stmt rest >>= next) = .call stmt fun answer => rest answer >>= next := rfl

/-- One statement, as a program. -/
def perform (stmt : Stmt α) : Program Stmt α := .call stmt .done

@[simp] theorem perform_bind (stmt : Stmt α) (next : α → Program Stmt β) :
    (perform stmt >>= next) = .call stmt next := rfl

/-- The program with each statement made through another interface. -/
def lift {Other : Type → Type} (embed : ∀ β, Stmt β → Other β) :
    Program Stmt α → Program Other α
  | .done value => .done value
  | .raise => .raise
  | .call stmt next => .call (embed _ stmt) fun answer => (next answer).lift embed

/-- Run on after `taken` statements, to the end or until `cut` statements took
effect. The caller sees `none` when the program raised or was cut off; a cut
right after the last statement loses only its answer. -/
def executeFrom (exec : Semantics Stmt σ) (cut : Option ℕ) :
    ℕ → Program Stmt α → σ → Option α × σ
  | taken, .done value, state => if cut = some taken then (none, state) else (some value, state)
  | _, .raise, state => (none, state)
  | taken, .call stmt next, state =>
    if cut = some taken then (none, state)
    else executeFrom exec cut (taken + 1) (next (exec _ stmt state).1) (exec _ stmt state).2

def execute (exec : Semantics Stmt σ) (cut : Option ℕ) : Program Stmt α → σ → Option α × σ :=
  executeFrom exec cut 0

/-- The rest of a run ends with this result in this state. -/
def Yields (exec : Semantics Stmt σ) (cut : Option ℕ) (taken : ℕ) (program : Program Stmt α)
    (state : σ) (result : Option α) (final : σ) : Prop :=
  executeFrom exec cut taken program state = (result, final)

/-- The first `count` statements take effect. -/
def Reached (cut : Option ℕ) (count : ℕ) : Prop := ∀ limit ∈ cut, count ≤ limit

instance (cut : Option ℕ) (count : ℕ) : Decidable (Reached cut count) :=
  inferInstanceAs (Decidable (∀ limit ∈ cut, count ≤ limit))

theorem reached_zero (cut : Option ℕ) : Reached cut 0 := fun _ _ => Nat.zero_le _

theorem Reached.succ {cut : Option ℕ} {count : ℕ} (reached : Reached cut count)
    (on : cut ≠ some count) : Reached cut (count + 1) := by
  intro limit member
  have below := reached limit member
  have different : count ≠ limit := fun same => on (same ▸ member)
  omega

theorem not_reached {cut : Option ℕ} {count limit : ℕ} (stop : cut = some limit)
    (below : limit < count) : ¬ Reached cut count := by
  intro reached
  have bound := reached limit stop
  omega

theorem Reached.of_le {cut : Option ℕ} {count fewer : ℕ} (reached : Reached cut count)
    (le : fewer ≤ count) : Reached cut fewer := fun limit member =>
  Nat.le_trans le (reached limit member)

variable {exec : Semantics Stmt σ} {cut : Option ℕ} {taken : ℕ} {state final : σ}

theorem execute_yields (exec : Semantics Stmt σ) (cut : Option ℕ) (program : Program Stmt α)
    (state : σ) : Yields exec cut 0 program state (execute exec cut program state).1
      (execute exec cut program state).2 := rfl

theorem yields_done {value : α} {result : Option α} :
    Yields exec cut taken (.done value) state result final ↔ final = state ∧
      (cut = some taken ∧ result = none ∨ cut ≠ some taken ∧ result = some value) := by
  rw [Yields, executeFrom]
  split <;> grind

theorem yields_raise {result : Option α} :
    Yields exec cut taken .raise state result final ↔ final = state ∧ result = none := by
  rw [Yields, executeFrom]
  grind

theorem yields_call {stmt : Stmt β} {next : β → Program Stmt α} {result : Option α} :
    Yields exec cut taken (.call stmt next) state result final ↔
      (cut = some taken ∧ final = state ∧ result = none) ∨ (cut ≠ some taken ∧
        Yields exec cut (taken + 1) (next (exec _ stmt state).1) (exec _ stmt state).2 result
          final) := by
  unfold Yields
  rw [executeFrom]
  split <;> grind

theorem yields_stop {program : Program Stmt α} {result : Option α} (stop : cut = some taken) :
    Yields exec cut taken program state result final ↔ final = state ∧ result = none := by
  cases program with
  | done value => simp [yields_done, stop]
  | raise => exact yields_raise
  | call stmt next => simp [yields_call, stop]

/-- A sequence ends in its first part, or in what follows from that part's value. -/
theorem Yields.of_bind {program : Program Stmt α} {next : α → Program Stmt β}
    {result : Option β} (yields : Yields exec cut taken (program >>= next) state result final) :
    (result = none ∧ Yields exec cut taken program state none final) ∨
      ∃ value middle later, Yields exec cut taken program state (some value) middle ∧
        Yields exec cut later (next value) middle result final := by
  induction program generalizing state taken with
  | done value =>
    by_cases stop : cut = some taken
    · obtain ⟨rfl, rfl⟩ := (yields_stop stop).mp yields
      exact .inl ⟨rfl, (yields_stop stop).mpr ⟨rfl, rfl⟩⟩
    · exact .inr ⟨value, state, taken, yields_done.mpr ⟨rfl, .inr ⟨stop, rfl⟩⟩, yields⟩
  | raise =>
    obtain ⟨rfl, rfl⟩ := yields_raise.mp yields
    exact .inl ⟨rfl, yields_raise.mpr ⟨rfl, rfl⟩⟩
  | call stmt rest ih =>
    rcases yields_call.mp yields with ⟨stop, rfl, rfl⟩ | ⟨on, later⟩
    · exact .inl ⟨rfl, (yields_stop stop).mpr ⟨rfl, rfl⟩⟩
    · rcases ih _ later with ⟨none, ended⟩ | ⟨value, middle, reached, first, second⟩
      · exact .inl ⟨none, yields_call.mpr (.inr ⟨on, ended⟩)⟩
      · exact .inr ⟨value, middle, reached, yields_call.mpr (.inr ⟨on, first⟩), second⟩

/-- Run to its end on its own, the program does not raise and ends as stated. -/
def Completes (exec : Semantics Stmt σ) (post : α → σ → Prop) : Program Stmt α → σ → Prop
  | .done value, state => post value state
  | .raise, _ => False
  | .call stmt next, state => Completes exec post (next (exec _ stmt state).1) (exec _ stmt state).2

theorem Completes.bind {program : Program Stmt α} {next : α → Program Stmt β}
    {post : β → σ → Prop}
    (first : Completes exec (fun value middle => Completes exec post (next value) middle) program
      state) : Completes exec post (program >>= next) state := by
  induction program generalizing state with
  | done value => exact first
  | raise => exact first
  | call stmt rest ih => exact ih _ first

theorem Completes.mono {program : Program Stmt α} {post weaker : α → σ → Prop}
    (completes : Completes exec post program state)
    (implies : ∀ value final, post value final → weaker value final) :
    Completes exec weaker program state := by
  induction program generalizing state with
  | done value => exact implies value state completes
  | raise => exact completes
  | call stmt next ih => exact ih _ completes

/-- A program that completes returns when no statement of it fails. -/
theorem Completes.executes {program : Program Stmt α} {post : α → σ → Prop}
    (completes : Completes exec post program state) :
    ∃ value, (execute exec none program state).1 = some value ∧
      post value (execute exec none program state).2 := by
  rw [execute]
  generalize 0 = taken
  induction program generalizing state taken with
  | done value => exact ⟨value, by simp [executeFrom], completes⟩
  | raise => exact completes.elim
  | call stmt next ih => exact ih _ completes (taken + 1)

/-- After how many statements the first one fails, if any does: it takes no effect, and its
caller raises. -/
def failsAt (exec : Semantics Stmt σ) (fails : ∀ β, Stmt β → σ → Bool) :
    ℕ → Program Stmt α → σ → Option ℕ
  | taken, .call stmt next, state =>
    if fails _ stmt state then some taken
    else failsAt exec fails (taken + 1) (next (exec _ stmt state).1) (exec _ stmt state).2
  | _, _, _ => none

section Failing

variable {fails : ∀ β, Stmt β → σ → Bool}

theorem le_of_failsAt {program : Program Stmt α} {count : ℕ}
    (failing : failsAt exec fails taken program state = some count) : taken ≤ count := by
  induction program generalizing state taken with
  | done value => cases failing
  | raise => cases failing
  | call stmt next ih =>
    rw [failsAt] at failing
    split at failing
    · exact Nat.le_of_eq (Option.some.inj failing)
    · exact Nat.le_of_succ_le (ih _ failing)

/-- A program cut off where a statement fails does not return. -/
theorem executeFrom_failsAt {program : Program Stmt α} {count : ℕ}
    (failing : failsAt exec fails taken program state = some count) :
    (executeFrom exec (some count) taken program state).1 = none := by
  induction program generalizing state taken with
  | done value => cases failing
  | raise => cases failing
  | call stmt next ih =>
    rw [failsAt] at failing
    rw [executeFrom]
    split at failing
    · rw [if_pos failing.symm]
    · have later : taken + 1 ≤ count := le_of_failsAt failing
      rw [if_neg fun same => absurd (Option.some.inj same) (by omega)]
      exact ih _ failing

/-- A program that completes on its own returns exactly if no statement of it fails. -/
theorem Completes.returns_iff {program : Program Stmt α} {post : α → σ → Prop}
    (completes : Completes exec post program state) :
    (execute exec (failsAt exec fails 0 program state) program state).1.isSome ↔
      failsAt exec fails 0 program state = none := by
  cases failing : failsAt exec fails 0 program state with
  | none =>
    obtain ⟨value, returned, _⟩ := completes.executes
    simp [returned]
  | some count => simp [execute, executeFrom_failsAt failing]

/-- Where what follows never fails, a sequence fails in its first part. -/
theorem failsAt_bind {program : Program Stmt α} {next : α → Program Stmt β}
    (clear : ∀ value state taken, failsAt exec fails taken (next value) state = none) :
    failsAt exec fails taken (program >>= next) state =
      failsAt exec fails taken program state := by
  induction program generalizing state taken with
  | done value => exact clear value state taken
  | raise => rfl
  | call stmt rest ih =>
    rw [call_bind, failsAt, failsAt]
    split
    · rfl
    · exact ih _

end Failing

end Program

end Foundation
