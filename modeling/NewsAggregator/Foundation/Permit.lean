import Mathlib.Algebra.BigOperators.Group.Finset.Piecewise
import NewsAggregator.Foundation.Pool

/-! Permits for keys that some statements answer with and others use up: callers that
use no permit they were not given never use more than were given, in any interleaving. -/

namespace Foundation

variable {Stmt : Type → Type} {σ χ ι κ : Type}

/-- One permit for the key, if there is one. -/
def permit [DecidableEq κ] (key : Option κ) (other : κ) : ℕ := if key = some other then 1 else 0

/-- What statements give and use, and how many permits a state counts of both. -/
structure Permits (exec : χ → Semantics Stmt σ) (κ : Type) [DecidableEq κ] where
  given : σ → κ → ℕ
  used : σ → κ → ℕ
  gives : ∀ β, Stmt β → β → Option κ
  uses : ∀ β, Stmt β → Option κ
  le_given : ∀ {β : Type} (choice : χ) (stmt : Stmt β) (state : σ) (key : κ),
    given state key + permit (gives β stmt (exec choice β stmt state).1) key ≤
      given (exec choice β stmt state).2 key
  used_le : ∀ {β : Type} (choice : χ) (stmt : Stmt β) (state : σ) (key : κ),
    used (exec choice β stmt state).2 key ≤ used state key + permit (uses β stmt) key

/-- What every statement keeps, the callers keep in any interleaving. -/
theorem Pool.step_keeps [DecidableEq ι] {exec : χ → Semantics Stmt σ} {invariant : σ → Prop}
    (kept : ∀ {β : Type} (choice : χ) (stmt : Stmt β) (state : σ), invariant state →
      invariant (exec choice β stmt state).2)
    {pool : Pool ι Stmt σ} (holds : invariant pool.shared) (event : Pool.Event ι Stmt χ) :
    invariant (pool.step exec event).shared := by
  cases event with
  | start caller program => exact holds
  | abort caller => exact holds
  | advance caller choice =>
    change invariant (pool.advance (exec choice) caller).shared
    rw [Pool.advance]
    split
    · exact kept choice _ _ holds
    · exact holds

namespace Permits

variable {exec : χ → Semantics Stmt σ} [DecidableEq κ] (permits : Permits exec κ)

/-- With so many permits at hand, the program uses none that it does not have. -/
def Within : (κ → ℕ) → Program Stmt Unit → Prop
  | held, .call stmt next =>
    (∀ key, permit (permits.uses _ stmt) key ≤ held key) ∧ ∀ answer,
      Within (fun key => held key - permit (permits.uses _ stmt) key +
        permit (permits.gives _ stmt answer) key) (next answer)
  | _, _ => True

variable {permits}

/-- A statement that gives and uses nothing. -/
theorem Within.pass {β : Type} {stmt : Stmt β} {next : β → Program Stmt Unit} {held : κ → ℕ}
    (none : permits.uses _ stmt = none)
    (nothing : ∀ answer, permits.gives _ stmt answer = Option.none)
    (rest : ∀ answer, permits.Within held (next answer)) :
    permits.Within held (.call stmt next) := by
  refine ⟨fun key => ?_, fun answer => ?_⟩
  · rw [none]
    exact Nat.zero_le _
  · rw [none, nothing]
    exact rest answer

variable [Fintype ι]

/-- What was used, and what the callers still hold, was given. -/
def Balanced (permits : Permits exec κ) (pool : Pool ι Stmt σ) : Prop := ∃ held : ι → κ → ℕ,
  (∀ caller, permits.Within (held caller) (pool.running caller)) ∧
    ∀ key, permits.used pool.shared key + ∑ caller, held caller key ≤
      permits.given pool.shared key

variable {pool : Pool ι Stmt σ}

theorem Balanced.used_le_given (balanced : permits.Balanced pool) (key : κ) :
    permits.used pool.shared key ≤ permits.given pool.shared key := by
  obtain ⟨held, _, enough⟩ := balanced
  have some := enough key
  omega

theorem balanced_idle {shared : σ}
    (enough : ∀ key, permits.used shared key ≤ permits.given shared key) :
    permits.Balanced (Pool.idle shared : Pool ι Stmt σ) := by
  refine ⟨fun _ _ => 0, fun _ => trivial, fun key => ?_⟩
  rw [Finset.sum_const_zero]
  exact enough key

variable [DecidableEq ι]

omit [DecidableEq κ] in
/-- One caller's permits change, the others keep theirs. -/
theorem sum_update (held : ι → κ → ℕ) (caller : ι) (own : κ → ℕ) (key : κ) :
    ∑ other, Function.update held caller own other key + held caller key =
      ∑ other, held other key + own key := by
  have pointwise : (fun other => Function.update held caller own other key) =
      Function.update (fun other => held other key) caller (own key) := by
    funext other
    by_cases same : other = caller
    · subst same
      rw [Function.update_self, Function.update_self]
    · rw [Function.update_of_ne same, Function.update_of_ne same]
  have rest := Finset.sum_erase_add Finset.univ (fun other => held other key)
    (Finset.mem_univ caller)
  rw [pointwise, Finset.sum_update_of_mem (Finset.mem_univ caller),
    Finset.sdiff_singleton_eq_erase, ← rest]
  omega

/-- A caller starts on something that uses nothing it is not given, or ends. -/
theorem Balanced.assign (balanced : permits.Balanced pool) (caller : ι)
    {program : Program Stmt Unit} (within : permits.Within (fun _ => 0) program) :
    permits.Balanced (pool.assign caller program) := by
  obtain ⟨held, safe, enough⟩ := balanced
  refine ⟨Function.update held caller fun _ => 0, fun other => ?_, fun key => ?_⟩
  · by_cases same : other = caller
    · subst same
      simpa only [Pool.assign, Function.update_self] using within
    · simpa only [Pool.assign, Function.update_of_ne same] using safe other
  · have before := enough key
    have moved := sum_update held caller (fun _ => 0) key
    change permits.used pool.shared key + _ ≤ permits.given pool.shared key
    omega

theorem Balanced.advance (balanced : permits.Balanced pool) (caller : ι) (choice : χ) :
    permits.Balanced (pool.advance (exec choice) caller) := by
  rw [Pool.advance]
  split
  · rename_i β stmt next current
    obtain ⟨held, safe, enough⟩ := balanced
    have own := safe caller
    rw [current] at own
    obtain ⟨affordable, later⟩ := own
    generalize answered : exec choice β stmt pool.shared = result
    refine ⟨Function.update held caller fun key => held caller key -
      permit (permits.uses _ stmt) key + permit (permits.gives _ stmt result.1) key,
      fun other => ?_, fun key => ?_⟩
    · by_cases same : other = caller
      · subst same
        simpa only [Function.update_self] using later result.1
      · simpa only [Function.update_of_ne same] using safe other
    · have before := enough key
      have paid := affordable key
      have moved := sum_update held caller (fun key => held caller key -
        permit (permits.uses _ stmt) key + permit (permits.gives _ stmt result.1) key) key
      have more := permits.le_given choice stmt pool.shared key
      have spent := permits.used_le choice stmt pool.shared key
      rw [answered] at more spent
      dsimp only at moved ⊢
      omega
  · exact balanced

/-- No event uses more than was given. -/
theorem Balanced.step (balanced : permits.Balanced pool) (event : Pool.Event ι Stmt χ)
    (within : ∀ caller program, event = .start caller program →
      permits.Within (fun _ => 0) program) : permits.Balanced (pool.step exec event) := by
  cases event with
  | start caller program => exact balanced.assign caller (within caller program rfl)
  | advance caller choice => exact balanced.advance caller choice
  | abort caller => exact balanced.assign caller trivial

end Permits

end Foundation
