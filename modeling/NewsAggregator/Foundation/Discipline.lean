import NewsAggregator.Foundation.Program

/-! What a program may do in the light of what it has read so far: a condition on its
statements, folded over every answer they may get. -/

namespace Foundation

/-- What a caller knows after an answer, and the statements it may then make. -/
structure Discipline (Stmt : Type → Type) (κ : Type) where
  observe : κ → ∀ β, Stmt β → β → κ
  allows : κ → ∀ β, Stmt β → Prop

namespace Discipline

variable {Stmt : Type → Type} {κ α β ι : Type} {discipline : Discipline Stmt κ}

/-- Whatever the answers, all statements are allowed and the value is as stated. -/
def Obeys (discipline : Discipline Stmt κ) (post : κ → α → Prop) : κ → Program Stmt α → Prop
  | known, .done value => post known value
  | _, .raise => True
  | known, .call stmt next => discipline.allows known _ stmt ∧ ∀ answer,
      discipline.Obeys post (discipline.observe known _ stmt answer) (next answer)

theorem Obeys.bind {known : κ} {program : Program Stmt α} {next : α → Program Stmt β}
    {post : κ → β → Prop}
    (first : discipline.Obeys (fun known value => discipline.Obeys post known (next value)) known
      program) : discipline.Obeys post known (program >>= next) := by
  induction program generalizing known with
  | done value => exact first
  | raise => trivial
  | call stmt rest ih => exact ⟨first.1, fun answer => ih answer (first.2 answer)⟩

theorem Obeys.mono {known : κ} {program : Program Stmt α} {post weaker : κ → α → Prop}
    (obeys : discipline.Obeys post known program)
    (implies : ∀ known value, post known value → weaker known value) :
    discipline.Obeys weaker known program := by
  induction program generalizing known with
  | done value => exact implies known value obeys
  | raise => trivial
  | call stmt rest ih => exact ⟨obeys.1, fun answer => ih answer (obeys.2 answer)⟩

/-- A loop obeys if each of its turns does and leaves what the next one needs. -/
theorem Obeys.foldlM (needs : κ → Prop) {turn : α → ι → Program Stmt α} {items : List ι}
    (turns : ∀ item ∈ items, ∀ known value, needs known →
      discipline.Obeys (fun known _ => needs known) known (turn value item))
    {known : κ} (initial : needs known) (value : α) :
    discipline.Obeys (fun known _ => needs known) known (items.foldlM turn value) := by
  induction items generalizing known value with
  | nil => exact initial
  | cons item rest ih =>
    rw [List.foldlM_cons]
    refine Obeys.bind ((turns item List.mem_cons_self known value initial).mono ?_)
    intro later result holds
    exact ih (fun other member => turns other (List.mem_cons_of_mem item member)) holds result

end Discipline

end Foundation
