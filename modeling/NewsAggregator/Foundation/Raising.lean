import Mathlib.Logic.Basic

/-! Computations that return or raise, and the weakest condition under which one
returns a value with a given property. -/

namespace Foundation

variable {ε α β : Type}

/-- The computation returns, and what it returns has the property. -/
def Ends (computation : Except ε α) (property : α → Prop) : Prop :=
  ∃ value, computation = .ok value ∧ property value

def Returns (computation : Except ε α) : Prop := Ends computation fun _ => True

/-- The value where the condition holds, the exception elsewhere. -/
def require (condition : Prop) [Decidable condition] (error : ε) (value : α) : Except ε α :=
  if condition then .ok value else .error error

/-- `try`: the exceptions the handler catches give the fallback. -/
def tryExcept (catches : ε → Bool) (computation : Except ε α) (fallback : α) : Except ε α :=
  match computation with
  | .ok value => .ok value
  | .error error => if catches error then .ok fallback else .error error

/-- The computation raises, and the handler does not catch it. -/
def Escapes (catches : ε → Bool) (computation : Except ε α) : Prop :=
  ∃ error, computation = .error error ∧ catches error = false

/-- What is computed, or the fallback where the computation raises. -/
def recovered (computation : Except ε α) (fallback : α) : α :=
  match computation with
  | .ok value => value
  | .error _ => fallback

section Rules

variable {property : α → Prop} {other : β → Prop}

@[simp] theorem ends_ok {value : α} : Ends (.ok value : Except ε α) property ↔ property value := by
  simp [Ends]

@[simp] theorem ends_pure {value : α} :
    Ends (pure value : Except ε α) property ↔ property value := ends_ok

@[simp] theorem ends_error {error : ε} : ¬ Ends (.error error : Except ε α) property := by
  simp [Ends]

@[simp] theorem ends_bind {computation : Except ε α} {next : α → Except ε β} :
    Ends (computation >>= next) other ↔ Ends computation fun value => Ends (next value) other := by
  cases computation with
  | error error => simp [Ends, bind, Except.bind]
  | ok value => simp [Ends, bind, Except.bind]

@[simp] theorem ends_map {change : α → β} {computation : Except ε α} :
    Ends (change <$> computation) other ↔ Ends computation fun value => other (change value) := by
  cases computation <;> simp [Ends, Functor.map, Except.map]

@[simp] theorem ends_require {condition : Prop} [Decidable condition] {error : ε} {value : α} :
    Ends (require condition error value) property ↔ condition ∧ property value := by
  rw [require]
  split <;> simp [*]

theorem ends_ite {condition : Prop} [Decidable condition] {left right : Except ε α} :
    Ends (if condition then left else right) property ↔
      if condition then Ends left property else Ends right property := by
  split <;> rfl

@[simp] theorem ends_tryExcept {catches : ε → Bool} {computation : Except ε α} {fallback : α} :
    Ends (tryExcept catches computation fallback) property ↔
      ¬ Escapes catches computation ∧ property (recovered computation fallback) := by
  cases computation with
  | ok value => simp [tryExcept, Escapes, recovered]
  | error error =>
    cases caught : catches error with
    | true => simp [tryExcept, Escapes, recovered, caught]
    | false => simp [tryExcept, Escapes, caught]

@[simp] theorem ends_and {computation : Except ε α} {always : Prop} :
    Ends computation (fun value => always ∧ property value) ↔
      always ∧ Ends computation property := by
  rw [Ends]
  constructor
  · rintro ⟨value, same, holds, rest⟩
    exact ⟨holds, value, same, rest⟩
  · rintro ⟨holds, value, same, rest⟩
    exact ⟨value, same, holds, rest⟩

theorem ends_iff_recovered {computation : Except ε α} (fallback : α) :
    Ends computation property ↔
      Returns computation ∧ property (recovered computation fallback) := by
  cases computation <;> simp [Returns, recovered]

theorem ends_const {computation : Except ε α} {always : Prop} :
    Ends computation (fun _ => always) ↔ Returns computation ∧ always := by
  rw [Returns, and_comm, ← ends_and]
  simp only [and_true]

theorem ends_eq_iff {computation : Except ε α} {value : α} :
    Ends computation (· = value) ↔ computation = .ok value := by
  simp [Ends]

/-- A loop returns when each of its turns does. -/
theorem ends_mapM {action : α → Except ε β} (fallback : β) {items : List α}
    {property : List β → Prop} :
    Ends (items.mapM action) property ↔ (∀ item ∈ items, Returns (action item)) ∧
      property (items.map fun item => recovered (action item) fallback) := by
  induction items generalizing property with
  | nil => simp
  | cons item rest ih =>
    rw [List.mapM_cons, ends_bind, ends_iff_recovered fallback]
    simp [ih, and_assoc]

theorem ends_mapM_require {condition : α → Prop} [DecidablePred condition] {error : ε}
    {value : α → β} {items : List α} {property : List β → Prop} :
    Ends (items.mapM fun item => require (condition item) error (value item)) property ↔
      (∀ item ∈ items, condition item) ∧ property (items.map value) := by
  induction items generalizing property with
  | nil => simp
  | cons item rest ih => simp [ih, and_assoc, and_left_comm]

theorem Ends.mono {computation : Except ε α} {weaker : α → Prop} (ends : Ends computation property)
    (implies : ∀ value, property value → weaker value) : Ends computation weaker := by
  obtain ⟨value, same, holds⟩ := ends
  exact ⟨value, same, implies value holds⟩

theorem ends_congr {computation : Except ε α} {second : α → Prop}
    (agree : ∀ value, property value ↔ second value) :
    Ends computation property ↔ Ends computation second :=
  ⟨fun ends => ends.mono fun value => (agree value).mp,
    fun ends => ends.mono fun value => (agree value).mpr⟩

end Rules

section Escaping

variable {catches : ε → Bool}

@[simp] theorem escapes_ok {value : α} : ¬ Escapes catches (.ok value : Except ε α) := by
  simp [Escapes]

@[simp] theorem escapes_pure {value : α} : ¬ Escapes catches (pure value : Except ε α) :=
  escapes_ok

@[simp] theorem escapes_error {error : ε} :
    Escapes catches (.error error : Except ε α) ↔ catches error = false := by
  simp [Escapes]

@[simp] theorem escapes_bind {computation : Except ε α} {next : α → Except ε β} :
    Escapes catches (computation >>= next) ↔
      Escapes catches computation ∨ Ends computation fun value => Escapes catches (next value) := by
  cases computation with
  | error error => simp [Escapes, bind, Except.bind]
  | ok value => simp [Escapes, bind, Except.bind]

@[simp] theorem escapes_map {change : α → β} {computation : Except ε α} :
    Escapes catches (change <$> computation) ↔ Escapes catches computation := by
  cases computation <;> simp [Escapes, Functor.map, Except.map]

end Escaping

end Foundation
