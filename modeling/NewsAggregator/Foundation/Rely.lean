import NewsAggregator.Foundation.Pool

/-! Rely and guarantee for callers over one shared state: an invariant every
statement keeps, and an order the state only moves up in, which is what a caller
may count on between two of its statements. -/

namespace Foundation

variable {Stmt : Type → Type} {σ χ ι : Type}

/-- What the statements of all callers maintain together. -/
structure Rely (exec : χ → Semantics Stmt σ) where
  invariant : σ → Prop
  grows : σ → σ → Prop
  refl : ∀ state, grows state state
  trans : ∀ {first second third}, grows first second → grows second third → grows first third

namespace Rely

variable {exec : χ → Semantics Stmt σ}

/-- From the state on, and however others move it, the program keeps the invariant
and only moves the state up. -/
def Safe (rely : Rely exec) : Program Stmt Unit → σ → Prop
  | .call stmt next, state => ∀ later, rely.grows state later → rely.invariant later → ∀ choice,
      rely.invariant (exec choice _ stmt later).2 ∧
        rely.grows later (exec choice _ stmt later).2 ∧
        rely.Safe (next (exec choice _ stmt later).1) (exec choice _ stmt later).2
  | _, _ => True

/-- The shared state meets the invariant and every caller is safe. -/
structure Sound (rely : Rely exec) (pool : Pool ι Stmt σ) : Prop where
  invariant : rely.invariant pool.shared
  safe : ∀ caller, rely.Safe (pool.running caller) pool.shared

variable {rely : Rely exec} {pool : Pool ι Stmt σ}

theorem Safe.later {program : Program Stmt Unit} {state later : σ}
    (safe : rely.Safe program state) (grown : rely.grows state later) : rely.Safe program later := by
  cases program with
  | done value => trivial
  | raise => trivial
  | call stmt next => exact fun after more => safe after (rely.trans grown more)

theorem sound_idle {shared : σ} (initial : rely.invariant shared) :
    rely.Sound (Pool.idle shared : Pool ι Stmt σ) := ⟨initial, fun _ => trivial⟩

variable [DecidableEq ι]

theorem Sound.assign (sound : rely.Sound pool) (caller : ι) {program : Program Stmt Unit}
    (safe : rely.Safe program pool.shared) : rely.Sound (pool.assign caller program) := by
  refine ⟨sound.invariant, fun other => ?_⟩
  by_cases same : other = caller
  · subst same
    simpa [Pool.assign] using safe
  · simpa [Pool.assign, Function.update_of_ne same] using sound.safe other

theorem Sound.advance (sound : rely.Sound pool) (caller : ι) (choice : χ) :
    rely.Sound (pool.advance (exec choice) caller) ∧
      rely.grows pool.shared (pool.advance (exec choice) caller).shared := by
  unfold Pool.advance
  split
  · rename_i β stmt next current
    have own := sound.safe caller
    rw [current] at own
    obtain ⟨kept, grown, safe⟩ := own pool.shared (rely.refl _) sound.invariant choice
    refine ⟨⟨kept, fun other => ?_⟩, grown⟩
    by_cases same : other = caller
    · subst same
      simpa using safe
    · simpa [Function.update_of_ne same] using (sound.safe other).later grown
  · exact ⟨sound, rely.refl _⟩

/-- Every event keeps a pool sound and moves its state up, if programs are safe
when they start. -/
theorem Sound.step (sound : rely.Sound pool) {event : Pool.Event ι Stmt χ}
    (starts : ∀ caller program, event = .start caller program →
      rely.Safe program pool.shared) :
    rely.Sound (pool.step exec event) ∧ rely.grows pool.shared (pool.step exec event).shared := by
  cases event with
  | start caller program =>
    exact ⟨sound.assign caller (starts caller program rfl), rely.refl _⟩
  | advance caller choice => exact sound.advance caller choice
  | abort caller => exact ⟨sound.assign caller trivial, rely.refl _⟩

end Rely

end Foundation
