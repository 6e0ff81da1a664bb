import NewsAggregator.Foundation.Discipline
import NewsAggregator.Foundation.Pool

/-! Callers over one shared state, next to what each has read since its program began: a
program may be held to its knowledge, and the state may keep a record of it. -/

namespace Foundation

variable {ι κ σ : Type} {Stmt : Type → Type}

/-- A pool, and what each caller knows. -/
structure Informed (ι κ : Type) (Stmt : Type → Type) (σ : Type) extends Pool ι Stmt σ where
  known : ι → κ

namespace Informed

/-- No caller has anything to do. -/
def idle (fresh : κ) (shared : σ) : Informed ι κ Stmt σ where
  toPool := Pool.idle shared
  known _ := fresh

variable [DecidableEq ι]

/-- One statement of one caller, by what it knows. -/
def advance (discipline : Discipline Stmt κ) (exec : κ → Semantics Stmt σ)
    (pool : Informed ι κ Stmt σ) (caller : ι) : Informed ι κ Stmt σ where
  toPool := pool.toPool.advance (exec (pool.known caller)) caller
  known :=
    match pool.running caller with
    | .call stmt _ => Function.update pool.known caller
        (discipline.observe (pool.known caller) _ stmt
          (exec (pool.known caller) _ stmt pool.shared).1)
    | _ => pool.known

/-- A new program knows nothing yet. -/
def step (discipline : Discipline Stmt κ) (exec : κ → Semantics Stmt σ) (fresh : κ)
    (pool : Informed ι κ Stmt σ) : Pool.Event ι Stmt Unit → Informed ι κ Stmt σ
  | .start caller program =>
    { toPool := pool.toPool.assign caller program
      known := Function.update pool.known caller fresh }
  | .advance caller _ => pool.advance discipline exec caller
  | .abort caller => { pool with toPool := pool.toPool.assign caller .raise }

end Informed

/-- What allowed statements keep of the state and of each caller's knowledge. -/
structure Upkeep (discipline : Discipline Stmt κ) (exec : κ → Semantics Stmt σ) (fresh : κ) where
  invariant : σ → Prop
  founded : κ → σ → Prop
  unknowing : ∀ state, founded fresh state
  stmt : ∀ {β : Type} (stmt : Stmt β) {known : κ} {state : σ}, invariant state →
    founded known state → discipline.allows known β stmt →
    invariant (exec known β stmt state).2 ∧
      founded (discipline.observe known β stmt (exec known β stmt state).1)
        (exec known β stmt state).2 ∧
      ∀ other, founded other state → founded other (exec known β stmt state).2

namespace Upkeep

variable {discipline : Discipline Stmt κ} {exec : κ → Semantics Stmt σ} {fresh : κ}

/-- The invariant holds, and every caller is held to what it knows. -/
structure Sound (upkeep : Upkeep discipline exec fresh) (pool : Informed ι κ Stmt σ) : Prop where
  invariant : upkeep.invariant pool.shared
  founded : ∀ caller, upkeep.founded (pool.known caller) pool.shared
  obeys : ∀ caller, discipline.Obeys (fun _ _ => True) (pool.known caller) (pool.running caller)

variable {upkeep : Upkeep discipline exec fresh} {pool : Informed ι κ Stmt σ}

theorem sound_idle {shared : σ} (initial : upkeep.invariant shared) :
    upkeep.Sound (Informed.idle fresh shared : Informed ι κ Stmt σ) :=
  ⟨initial, fun _ => upkeep.unknowing shared, fun _ => trivial⟩

variable [DecidableEq ι]

theorem Sound.start (sound : upkeep.Sound pool) (caller : ι) {program : Program Stmt Unit}
    (obeys : discipline.Obeys (fun _ _ => True) fresh program) :
    upkeep.Sound (pool.step discipline exec fresh (.start caller program)) := by
  refine ⟨sound.invariant, fun other => ?_, fun other => ?_⟩
  · by_cases same : other = caller
    · subst same
      simpa [Informed.step, Pool.assign] using upkeep.unknowing pool.shared
    · simpa [Informed.step, Pool.assign, Function.update_of_ne same] using sound.founded other
  · by_cases same : other = caller
    · subst same
      simpa [Informed.step, Pool.assign] using obeys
    · simpa [Informed.step, Pool.assign, Function.update_of_ne same] using sound.obeys other

theorem Sound.abort (sound : upkeep.Sound pool) (caller : ι) :
    upkeep.Sound (pool.step discipline exec fresh (.abort caller)) := by
  refine ⟨sound.invariant, sound.founded, fun other => ?_⟩
  by_cases same : other = caller
  · subst same
    simp [Informed.step, Pool.assign, Discipline.Obeys]
  · simpa [Informed.step, Pool.assign, Function.update_of_ne same] using sound.obeys other

theorem Sound.advance (sound : upkeep.Sound pool) (caller : ι) :
    upkeep.Sound (pool.advance discipline exec caller) := by
  cases current : pool.running caller with
  | done value =>
    have same : pool.advance discipline exec caller = pool := by
      simp only [Informed.advance, Pool.advance, current]
    rwa [same]
  | raise =>
    have same : pool.advance discipline exec caller = pool := by
      simp only [Informed.advance, Pool.advance, current]
    rwa [same]
  | call stmt next =>
    have own := sound.obeys caller
    rw [current] at own
    obtain ⟨kept, learned, others⟩ := upkeep.stmt stmt sound.invariant (sound.founded caller) own.1
    have shared : (pool.advance discipline exec caller).shared =
        (exec (pool.known caller) _ stmt pool.shared).2 := by
      simp only [Informed.advance, Pool.advance, current]
    have known : (pool.advance discipline exec caller).known = Function.update pool.known caller
        (discipline.observe (pool.known caller) _ stmt
          (exec (pool.known caller) _ stmt pool.shared).1) := by
      simp only [Informed.advance, current]
    have running : (pool.advance discipline exec caller).running =
        Function.update pool.running caller
          (next (exec (pool.known caller) _ stmt pool.shared).1) := by
      simp only [Informed.advance, Pool.advance, current]
    refine ⟨?_, fun other => ?_, fun other => ?_⟩
    · rw [shared]
      exact kept
    · rw [shared, known]
      by_cases same : other = caller
      · subst same
        simpa using learned
      · simpa [Function.update_of_ne same] using others _ (sound.founded other)
    · rw [known, running]
      by_cases same : other = caller
      · subst same
        simpa using own.2 _
      · simpa [Function.update_of_ne same] using sound.obeys other

/-- Every event keeps a pool sound, if programs obey when they start. -/
theorem Sound.step (sound : upkeep.Sound pool) {event : Pool.Event ι Stmt Unit}
    (starts : ∀ caller program, event = .start caller program →
      discipline.Obeys (fun _ _ => True) fresh program) :
    upkeep.Sound (pool.step discipline exec fresh event) := by
  cases event with
  | start caller program => exact sound.start caller (starts caller program rfl)
  | advance caller _ => exact sound.advance caller
  | abort caller => exact sound.abort caller

end Upkeep

end Foundation
