import Mathlib.Data.List.Infix

/-! Runs of a deterministic machine over a list of events, and the rule that
carries an invariant and a condition on every step along a run. -/

namespace Foundation

variable {σ ε : Type*} {step : σ → ε → σ}

/-- The state after the events. -/
def run (step : σ → ε → σ) (start : σ) (events : List ε) : σ := events.foldl step start

/-- The property holds of every step: of the state before it and of its event. -/
def Along (step : σ → ε → σ) (property : σ → ε → Prop) : σ → List ε → Prop
  | _, [] => True
  | state, event :: rest => property state event ∧ Along step property (step state event) rest

/-- The property holds of every state a run passes through. -/
def Always (step : σ → ε → σ) (property : σ → Prop) (start : σ) (events : List ε) : Prop :=
  ∀ before, before <+: events → property (run step start before)

instance Along.decidable {property : σ → ε → Prop}
    [∀ state event, Decidable (property state event)] :
    ∀ (start : σ) (events : List ε), Decidable (Along step property start events)
  | _, [] => isTrue trivial
  | start, event :: rest =>
    have : Decidable (Along step property (step start event) rest) :=
      Along.decidable (step start event) rest
    inferInstanceAs (Decidable (_ ∧ _))

@[simp] theorem run_nil (start : σ) : run step start [] = start := rfl

@[simp] theorem run_cons (start : σ) (event : ε) (rest : List ε) :
    run step start (event :: rest) = run step (step start event) rest := rfl

theorem run_append (start : σ) (before after : List ε) :
    run step start (before ++ after) = run step (run step start before) after :=
  List.foldl_append

theorem run_concat (step : σ → ε → σ) (start : σ) (before : List ε) (event : ε) :
    run step start (before ++ [event]) = step (run step start before) event := by
  rw [run_append, run_cons, run_nil]

theorem along_append {property : σ → ε → Prop} {start : σ} {before after : List ε} :
    Along step property start (before ++ after) ↔
      Along step property start before ∧ Along step property (run step start before) after := by
  induction before generalizing start with
  | nil => simp [Along]
  | cons event rest ih => simp [Along, ih, and_assoc]

theorem along_concat {property : σ → ε → Prop} {start : σ} {before : List ε} {event : ε} :
    Along step property start (before ++ [event]) ↔
      Along step property start before ∧ property (run step start before) event := by
  rw [along_append]
  simp [Along]

theorem along_of_forall {property : σ → ε → Prop} (holds : ∀ state event, property state event)
    {start : σ} {events : List ε} : Along step property start events := by
  induction events generalizing start with
  | nil => trivial
  | cons event rest ih => exact ⟨holds start event, ih⟩

theorem along_of_mem {property : σ → ε → Prop} {start : σ} {events : List ε}
    (holds : ∀ event ∈ events, ∀ state, property state event) :
    Along step property start events := by
  induction events generalizing start with
  | nil => trivial
  | cons event rest ih =>
    refine ⟨holds event List.mem_cons_self start, ih ?_⟩
    exact fun other member => holds other (List.mem_cons_of_mem event member)

/-- A property of all states, from its start and what every step makes of it. -/
theorem always_iff_along {property : σ → Prop} {start : σ} {events : List ε} :
    Always step property start events ↔
      property start ∧ Along step (fun state event => property (step state event)) start events := by
  induction events generalizing start with
  | nil =>
    constructor
    · exact fun always => ⟨always [] (List.prefix_refl _), trivial⟩
    · rintro ⟨here, _⟩ before initial
      rwa [List.prefix_nil.mp initial]
  | cons event rest ih =>
    constructor
    · intro always
      refine ⟨always [] List.nil_prefix, ih.mp fun before initial => ?_⟩
      exact always (event :: before) (List.cons_prefix_cons.mpr ⟨rfl, initial⟩)
    · rintro ⟨here, next, later⟩ before initial
      cases before with
      | nil => exact here
      | cons first before =>
        obtain ⟨rfl, shorter⟩ := List.cons_prefix_cons.mp initial
        exact ih.mpr ⟨next, later⟩ before shorter

theorem Along.shorten {property : σ → ε → Prop} {start : σ} {before events : List ε}
    (along : Along step property start events) (initial : before <+: events) :
    Along step property start before := by
  obtain ⟨after, rfl⟩ := initial
  exact (along_append.mp along).1

theorem Along.and {first second : σ → ε → Prop} {start : σ} {events : List ε}
    (left : Along step first start events) (right : Along step second start events) :
    Along step (fun state event => first state event ∧ second state event) start events := by
  induction events generalizing start with
  | nil => trivial
  | cons event rest ih => exact ⟨⟨left.1, right.1⟩, ih left.2 right.2⟩

/-- An invariant that every step meeting the condition preserves. -/
theorem Along.invariant {condition : σ → ε → Prop} {start : σ} {events : List ε}
    (along : Along step condition start events) (invariant : σ → Prop) (initial : invariant start)
    (preserved : ∀ state event, invariant state → condition state event →
      invariant (step state event)) : invariant (run step start events) := by
  induction events generalizing start with
  | nil => exact initial
  | cons event rest ih => exact ih along.2 (preserved start event initial along.1)

theorem Along.always {condition : σ → ε → Prop} {start : σ} {events : List ε}
    (along : Along step condition start events) (invariant : σ → Prop) (initial : invariant start)
    (preserved : ∀ state event, invariant state → condition state event →
      invariant (step state event)) : Always step invariant start events :=
  fun _ initialPart => (along.shorten initialPart).invariant invariant initial preserved

/-- What the invariant and the condition give of one step holds of every step. -/
theorem Along.consequence {condition property : σ → ε → Prop} {start : σ} {events : List ε}
    (along : Along step condition start events) (invariant : σ → Prop) (initial : invariant start)
    (preserved : ∀ state event, invariant state → condition state event →
      invariant (step state event))
    (gives : ∀ state event, invariant state → condition state event → property state event) :
    Along step property start events := by
  induction events generalizing start with
  | nil => trivial
  | cons event rest ih =>
    exact ⟨gives start event initial along.1,
      ih along.2 (preserved start event initial along.1)⟩

/-- Two properties that agree on every step from an invariant state, where the
first maintains the invariant, hold along the same runs. -/
theorem along_congr {side first second : σ → ε → Prop} {start : σ} {events : List ε}
    (along : Along step side start events) (invariant : σ → Prop) (initial : invariant start)
    (agree : ∀ state event, invariant state → side state event →
      (first state event ↔ second state event))
    (preserved : ∀ state event, invariant state → first state event →
      invariant (step state event)) :
    Along step first start events ↔ Along step second start events := by
  induction events generalizing start with
  | nil => rfl
  | cons event rest ih =>
    have here := agree start event initial along.1
    constructor
    · rintro ⟨holds, later⟩
      exact ⟨here.mp holds, (ih along.2 (preserved start event initial holds)).mp later⟩
    · rintro ⟨holds, later⟩
      have next := preserved start event initial (here.mpr holds)
      exact ⟨here.mpr holds, (ih along.2 next).mpr later⟩

/-- The condition holds of every event and the events before it. -/
def EachStep (condition : List ε → ε → Prop) (events : List ε) : Prop :=
  ∀ before event, before ++ [event] <+: events → condition before event

theorem eachStep_iff_get {condition : List ε → ε → Prop} {events : List ε} :
    EachStep condition events ↔
      ∀ i : Fin events.length, condition (events.take i) (events.get i) := by
  constructor
  · intro each i
    refine each _ _ ?_
    rw [List.get_eq_getElem, List.take_concat_get']
    exact List.take_prefix _ _
  · rintro each before event ⟨later, rfl⟩
    have here := each ⟨before.length, by simp⟩
    simpa using here

instance EachStep.decidable {condition : List ε → ε → Prop}
    [∀ before event, Decidable (condition before event)] (events : List ε) :
    Decidable (EachStep condition events) :=
  decidable_of_iff _ eachStep_iff_get.symm

@[simp] theorem eachStep_nil {condition : List ε → ε → Prop} : EachStep condition [] := by
  intro before event initial
  simp [List.prefix_nil] at initial

theorem eachStep_concat {condition : List ε → ε → Prop} {events : List ε} {event : ε} :
    EachStep condition (events ++ [event]) ↔ EachStep condition events ∧ condition events event := by
  constructor
  · intro each
    refine ⟨fun before other initial => ?_, each events event (List.prefix_refl _)⟩
    exact each before other (initial.trans (List.prefix_append _ _))
  · rintro ⟨each, last⟩ before other initial
    rcases List.prefix_concat_iff.mp initial with whole | shorter
    · obtain ⟨rfl, same⟩ := List.append_inj' whole rfl
      obtain rfl := List.singleton_inj.mp same
      exact last
    · exact each before other shorter

/-- A property of all prefixes, from what one more event does to it. -/
theorem prefixes_iff {holds : List ε → Prop} {condition : List ε → ε → Prop} {events : List ε}
    (start : holds [])
    (agree : ∀ before event, before ++ [event] <+: events → holds before →
      (holds (before ++ [event]) ↔ condition before event)) :
    (∀ before, before <+: events → holds before) ↔ EachStep condition events := by
  constructor
  · intro always before event initial
    have shorter := (List.prefix_append before [event]).trans initial
    exact (agree before event initial (always before shorter)).mp (always _ initial)
  · intro each before
    induction before using List.reverseRecOn with
    | nil => exact fun _ => start
    | append_singleton before event ih =>
      intro initial
      have shorter := (List.prefix_append before [event]).trans initial
      exact (agree before event initial (ih shorter)).mpr (each before event initial)

end Foundation
