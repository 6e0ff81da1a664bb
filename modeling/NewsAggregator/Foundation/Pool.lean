import Mathlib.Logic.Function.Basic
import Mathlib.Order.Basic
import NewsAggregator.Foundation.Program

/-! Callers that interleave their statements over one shared state, and cells of
that state which callers read in one statement and write back in another. -/

namespace Foundation

variable {Stmt : Type → Type} {σ χ ι κ ν : Type}

/-- The shared state and what each caller has still to do. -/
structure Pool (ι : Type) (Stmt : Type → Type) (σ : Type) where
  shared : σ
  running : ι → Program Stmt Unit

/-- `choice` settles what a statement leaves open. -/
inductive Pool.Event (ι : Type) (Stmt : Type → Type) (χ : Type) : Type 1 where
  | start (caller : ι) (program : Program Stmt Unit)
  | advance (caller : ι) (choice : χ)
  | abort (caller : ι)

namespace Pool

variable [DecidableEq ι]

def assign (pool : Pool ι Stmt σ) (caller : ι) (program : Program Stmt Unit) : Pool ι Stmt σ :=
  { pool with running := Function.update pool.running caller program }

/-- One statement of one caller. -/
def advance (exec : Semantics Stmt σ) (pool : Pool ι Stmt σ) (caller : ι) : Pool ι Stmt σ :=
  match pool.running caller with
  | .call stmt next =>
    { shared := (exec _ stmt pool.shared).2
      running := Function.update pool.running caller (next (exec _ stmt pool.shared).1) }
  | _ => pool

/-- No caller has anything to do. -/
def idle (shared : σ) : Pool ι Stmt σ := ⟨shared, fun _ => .done ()⟩

def step (exec : χ → Semantics Stmt σ) (pool : Pool ι Stmt σ) : Event ι Stmt χ → Pool ι Stmt σ
  | .start caller program => pool.assign caller program
  | .advance caller choice => pool.advance (exec choice) caller
  | .abort caller => pool.assign caller .raise

end Pool

/-- Cells that some statements read and some write. A read leaves the cell as it
was answered; a statement changes no cell but the one it writes, and that one
to the written value, if at all. -/
structure Register (exec : χ → Semantics Stmt σ) (κ ν : Type) where
  value : σ → κ → ν
  reads : ∀ β, Stmt β → β → Option (κ × ν)
  writes : ∀ β, Stmt β → Option (κ × ν)
  read_eq : ∀ {β : Type} (choice : χ) (stmt : Stmt β) (state : σ) (cell : κ) (seen : ν),
    reads β stmt (exec choice β stmt state).1 = some (cell, seen) →
      value (exec choice β stmt state).2 cell = seen
  frame : ∀ {β : Type} (choice : χ) (stmt : Stmt β) (state : σ) (cell : κ),
    value (exec choice β stmt state).2 cell = value state cell ∨
      writes β stmt = some (cell, value (exec choice β stmt state).2 cell)

namespace Register

variable {exec : χ → Semantics Stmt σ} [Preorder ν]

/-- The write a program performs next. -/
def pending (register : Register exec κ ν) : Program Stmt Unit → Option (κ × ν)
  | .call stmt _ => register.writes _ stmt
  | _ => none

/-- A value that may be written without a look at the cell. -/
def Blind (value : ν) : Prop := ∀ seen, seen ≤ value

/-- Wherever the program writes, it wrote no less than it read just before. -/
def Guarded (register : Register exec κ ν) : Program Stmt Unit → Prop
  | .call stmt next => ∀ answer, register.Guarded (next answer) ∧
      ∀ cell value, register.pending (next answer) = some (cell, value) → Blind value ∨
        ∃ seen, register.reads _ stmt answer = some (cell, seen) ∧ seen ≤ value
  | _ => True

/-- A program a caller may start on. -/
structure Admitted (register : Register exec κ ν) (program : Program Stmt Unit) : Prop where
  guarded : register.Guarded program
  first : ∀ cell value, register.pending program = some (cell, value) → Blind value

/-- Every decided write is still no lower than its cell. -/
def Ahead (register : Register exec κ ν) (pool : Pool ι Stmt σ) : Prop :=
  ∀ caller, register.Guarded (pool.running caller) ∧ ∀ cell value,
    register.pending (pool.running caller) = some (cell, value) →
      register.value pool.shared cell ≤ value

/-- No write overtakes the decided, still unwritten lower value of another caller. -/
def Orderly (register : Register exec κ ν) (pool : Pool ι Stmt σ) : Pool.Event ι Stmt χ → Prop
  | .start _ program => register.Admitted program
  | .advance caller _ => ∀ cell value, register.pending (pool.running caller) = some (cell, value) →
      ∀ other, other ≠ caller → ∀ held,
        register.pending (pool.running other) = some (cell, held) → value ≤ held
  | .abort _ => True

variable {register : Register exec κ ν} {pool : Pool ι Stmt σ}

/-- A statement lowers no cell. -/
private theorem Ahead.raises (ahead : register.Ahead pool) {caller : ι} {β : Type} {stmt : Stmt β}
    {next : β → Program Stmt Unit} (current : pool.running caller = .call stmt next) (choice : χ)
    (cell : κ) :
    register.value pool.shared cell ≤ register.value (exec choice β stmt pool.shared).2 cell := by
  rcases register.frame choice stmt pool.shared cell with same | written
  · exact le_of_eq same.symm
  · refine (ahead caller).2 cell _ ?_
    rw [current]
    exact written

theorem admitted_done : register.Admitted (.done ()) := ⟨trivial, fun _ _ none => nomatch none⟩

theorem admitted_raise : register.Admitted .raise := ⟨trivial, fun _ _ none => nomatch none⟩

/-- A statement whose write, if any, is blind. -/
theorem Admitted.call {β : Type} {stmt : Stmt β} {next : β → Program Stmt Unit}
    (blind : ∀ cell value, register.writes β stmt = some (cell, value) → Blind value)
    (rest : ∀ answer, register.Admitted (next answer)) : register.Admitted (.call stmt next) :=
  ⟨fun answer => ⟨(rest answer).guarded, fun cell value decided =>
    .inl ((rest answer).first cell value decided)⟩, blind⟩

/-- A read and the write decided from its answer. -/
theorem Admitted.update {β γ : Type} {read : Stmt β} {write : β → Stmt γ}
    {next : β → γ → Program Stmt Unit} (only : register.writes β read = none)
    (above : ∀ answer cell value, register.writes γ (write answer) = some (cell, value) →
      ∃ seen, register.reads β read answer = some (cell, seen) ∧ seen ≤ value)
    (rest : ∀ answer result, register.Admitted (next answer result)) :
    register.Admitted (.call read fun answer => .call (write answer) (next answer)) := by
  refine ⟨fun answer => ⟨fun result => ⟨(rest answer result).guarded, fun cell value decided =>
    .inl ((rest answer result).first cell value decided)⟩, fun cell value decided =>
    .inr (above answer cell value decided)⟩, fun cell value decided => ?_⟩
  rw [pending, only] at decided
  cases decided

variable [DecidableEq ι]

private theorem Ahead.assign (ahead : register.Ahead pool) (caller : ι)
    {program : Program Stmt Unit} (admitted : register.Admitted program) :
    register.Ahead (pool.assign caller program) := by
  intro other
  by_cases same : other = caller
  · subst same
    simp only [Pool.assign, Function.update_self]
    exact ⟨admitted.guarded, fun cell value next => admitted.first cell value next _⟩
  · simp only [Pool.assign, Function.update_of_ne same]
    exact ahead other

private theorem Ahead.advance (ahead : register.Ahead pool) {caller : ι} {choice : χ}
    (orderly : register.Orderly pool (.advance caller choice)) :
    register.Ahead (pool.advance (exec choice) caller) := by
  rw [Pool.advance]
  split
  · rename_i β stmt next current
    have guarded := (ahead caller).1
    rw [current] at guarded
    intro other
    by_cases same : other = caller
    · subst same
      simp only [Function.update_self]
      refine ⟨(guarded _).1, fun cell value decided => ?_⟩
      rcases (guarded _).2 cell value decided with blind | ⟨seen, read, below⟩
      · exact blind _
      · rw [register.read_eq choice stmt pool.shared cell seen read]
        exact below
    · simp only [Function.update_of_ne same]
      refine ⟨(ahead other).1, fun cell value held => ?_⟩
      rcases register.frame choice stmt pool.shared cell with kept | written
      · rw [kept]
        exact (ahead other).2 cell value held
      · refine orderly cell _ ?_ other same value held
        rw [current]
        exact written
  · exact ahead

omit [DecidableEq ι] in
theorem ahead_idle (register : Register exec κ ν) (shared : σ) :
    register.Ahead (Pool.idle shared : Pool ι Stmt σ) :=
  fun _ => ⟨trivial, fun _ _ none => nomatch none⟩

theorem Ahead.step (ahead : register.Ahead pool) {event : Pool.Event ι Stmt χ}
    (orderly : register.Orderly pool event) : register.Ahead (pool.step exec event) := by
  cases event with
  | start caller program => exact ahead.assign caller orderly
  | advance caller choice => exact ahead.advance orderly
  | abort caller => exact ahead.assign caller admitted_raise

/-- No event lowers a cell. -/
theorem Ahead.monotone (ahead : register.Ahead pool) (event : Pool.Event ι Stmt χ) (cell : κ) :
    register.value pool.shared cell ≤ register.value (pool.step exec event).shared cell := by
  cases event with
  | start caller program => exact le_refl _
  | abort caller => exact le_refl _
  | advance caller choice =>
    change _ ≤ register.value (pool.advance (exec choice) caller).shared cell
    rw [Pool.advance]
    split
    · rename_i β stmt next current
      exact ahead.raises current choice cell
    · exact le_refl _

end Register

end Foundation
