import NewsAggregator.Foundation.Run

/-! Parties that change shared stores and are answered from them, each by its own
program, and the stores on which one party's program makes a difference. -/

namespace Foundation

/-- The stores a party's request may change, and those it may be answered from. -/
structure Access (υ κ ρ : Type) where
  changes : υ → ρ → κ → Bool
  reads : υ → ρ → List κ

/-- What all the stores become by a party's request with its data, and what it is answered. -/
structure Service (υ κ ρ δ σ α : Type) where
  apply : υ → ρ → δ → (κ → σ) → κ → σ
  answer : υ → ρ → δ → (κ → σ) → α

/-- The stores, and what each party has been answered. -/
structure World (υ κ σ α : Type) where
  stores : κ → σ
  heard : υ → List α

section Turns

variable {υ κ ρ ι δ σ α : Type} [DecidableEq υ]

/-- A party's turn: it asks what its program makes of an input and the answers so
far. The intruder hears every answer. -/
def turn (intruder : υ) (service : Service υ κ ρ δ σ α) (programs : υ → ι → List α → ρ × δ)
    (world : World υ κ σ α) (event : υ × ι) : World υ κ σ α :=
  let asked := programs event.1 event.2 (world.heard event.1)
  { stores := service.apply event.1 asked.1 asked.2 world.stores
    heard := fun party =>
      if party = event.1 ∨ party = intruder then
        world.heard party ++ [service.answer event.1 asked.1 asked.2 world.stores]
      else world.heard party }

/-- No run shows in the store what program the intruder has. -/
def Isolated (ι : Type) (service : Service υ κ ρ δ σ α) (intruder : υ) (store : κ) : Prop :=
  ∀ programs other : υ → ι → List α → ρ × δ,
    (∀ party, party ≠ intruder → programs party = other party) →
    ∀ (start : World υ κ σ α) (turns : List (υ × ι)),
      (run (turn intruder service programs) start turns).stores store =
        (run (turn intruder service other) start turns).stores store

end Turns

namespace Access

variable {υ κ ρ : Type}

/-- The frame of a service. A request changes only the stores that the access has for it, each
by what that store itself holds, and its answer tells only of those it may read. -/
structure Confines {δ σ α : Type} (access : Access υ κ ρ) (service : Service υ κ ρ δ σ α) :
    Prop where
  unchanged : ∀ party request data stores store, access.changes party request store = false →
    service.apply party request data stores store = stores store
  apart : ∀ party request data first second store, first store = second store →
    service.apply party request data first store = service.apply party request data second store
  answered : ∀ party request data first second,
    (∀ store ∈ access.reads party request, first store = second store) →
      service.answer party request data first = service.answer party request data second

/-- The parties that can come to know what the intruder does. -/
inductive Tainted (access : Access υ κ ρ) (intruder : υ) : υ → Prop
  | self : Tainted access intruder intruder
  | heard {writer reader : υ} {request asked : ρ} {store : κ} :
      Tainted access intruder writer → access.changes writer request store = true →
      store ∈ access.reads reader asked → Tainted access intruder reader

/-- The tainted parties are in every set that no answer leads out of. -/
theorem Tainted.closed {access : Access υ κ ρ} {intruder party : υ} {inside : υ → Prop}
    (tainted : access.Tainted intruder party) (here : inside intruder)
    (closed : ∀ writer reader request asked store, inside writer →
      access.changes writer request store = true → store ∈ access.reads reader asked →
      inside reader) : inside party := by
  induction tainted with
  | self => exact here
  | heard _ changed reads ih => exact closed _ _ _ _ _ ih changed reads

/-- The stores that such a party can change. -/
def Reached (access : Access υ κ ρ) (intruder : υ) (store : κ) : Prop :=
  ∃ writer request, access.Tainted intruder writer ∧ access.changes writer request store = true

/-- Two worlds alike wherever the intruder does not reach. -/
structure Alike {σ α : Type} (access : Access υ κ ρ) (intruder : υ)
    (first second : World υ κ σ α) : Prop where
  stores : ∀ store, ¬ access.Reached intruder store → first.stores store = second.stores store
  heard : ∀ party, ¬ access.Tainted intruder party → first.heard party = second.heard party

theorem Alike.trans {σ α : Type} {access : Access υ κ ρ} {intruder : υ}
    {first second third : World υ κ σ α}
    (left : access.Alike intruder first second) (right : access.Alike intruder second third) :
    access.Alike intruder first third where
  stores store outside := (left.stores store outside).trans (right.stores store outside)
  heard party clean := (left.heard party clean).trans (right.heard party clean)

theorem Alike.symm {σ α : Type} {access : Access υ κ ρ} {intruder : υ}
    {first second : World υ κ σ α} (alike : access.Alike intruder first second) :
    access.Alike intruder second first where
  stores store outside := (alike.stores store outside).symm
  heard party clean := (alike.heard party clean).symm

variable [DecidableEq υ]

section Noninterference

variable {ι δ σ α : Type} {access : Access υ κ ρ} {intruder : υ} {service : Service υ κ ρ δ σ α}
  {programs other : υ → ι → List α → ρ × δ}

/-- A tainted party's turn keeps to the reached stores and the tainted parties. -/
theorem turn_tainted (frame : access.Confines service) {world : World υ κ σ α} {event : υ × ι}
    (tainted : access.Tainted intruder event.1) :
    access.Alike intruder (turn intruder service programs world event) world := by
  constructor
  · intro store outside
    apply frame.unchanged
    apply eq_false_of_ne_true
    intro changed
    exact outside ⟨event.1, _, tainted, changed⟩
  · intro party clean
    apply if_neg
    rintro (rfl | rfl)
    · exact clean tainted
    · exact clean .self

omit [DecidableEq υ] in
/-- A party out of reach is answered the same in two worlds alike. -/
theorem answer_alike (frame : access.Confines service) {first second : World υ κ σ α} {party : υ}
    (alike : access.Alike intruder first second) (clean : ¬ access.Tainted intruder party)
    (request : ρ) (data : δ) :
    service.answer party request data first.stores =
      service.answer party request data second.stores := by
  apply frame.answered
  intro store reads
  apply alike.stores
  rintro ⟨writer, write, tainted, changed⟩
  exact clean (.heard tainted changed reads)

/-- The turn of a party out of reach is the same in two worlds alike. -/
theorem turn_clean (frame : access.Confines service) {first second : World υ κ σ α}
    {event : υ × ι} (same : programs event.1 = other event.1)
    (clean : ¬ access.Tainted intruder event.1) (alike : access.Alike intruder first second) :
    access.Alike intruder (turn intruder service programs first event)
      (turn intruder service other second event) := by
  have asks : programs event.1 event.2 (first.heard event.1) =
      other event.1 event.2 (second.heard event.1) := by rw [same, alike.heard event.1 clean]
  constructor
  · intro store outside
    simp only [turn, asks]
    exact frame.apart _ _ _ _ _ _ (alike.stores store outside)
  · intro party apart
    simp only [turn, asks, alike.heard party apart, answer_alike frame alike clean]

/-- Runs with programs that differ for the intruder alone stay alike. -/
theorem run_alike (frame : access.Confines service)
    (same : ∀ party, party ≠ intruder → programs party = other party)
    (turns : List (υ × ι)) {first second : World υ κ σ α}
    (alike : access.Alike intruder first second) :
    access.Alike intruder (run (turn intruder service programs) first turns)
      (run (turn intruder service other) second turns) := by
  induction turns generalizing first second with
  | nil => exact alike
  | cons event rest ih =>
    apply ih
    by_cases tainted : access.Tainted intruder event.1
    · exact (turn_tainted frame tainted).trans (alike.trans (turn_tainted frame tainted).symm)
    · apply turn_clean frame _ tainted alike
      apply same
      intro here
      exact tainted (here ▸ .self)

end Noninterference

section Relay

variable (access : Access υ κ ρ) (intruder : υ)

/-- Stores that keep whether they were told, and tell it. -/
def telling : Service υ κ ρ Bool Bool Bool where
  apply party request told stores store :=
    stores store || (access.changes party request store && told)
  answer party request _ stores := (access.reads party request).any stores

/-- Parties that pass on what they heard; the intruder may start it. -/
def passing (starts : Bool) (party : υ) (request : ρ) (heard : List Bool) : ρ × Bool :=
  (request, heard.contains true || (party = intruder && starts))

def untold : World υ κ Bool Bool := ⟨fun _ => false, fun _ => []⟩

/-- A party that has something to pass on. -/
def Knows (world : World υ κ Bool Bool) (party : υ) : Prop :=
  true ∈ world.heard party ∨ party = intruder

variable {access intruder}

omit [DecidableEq υ] in
theorem confines_telling : access.Confines access.telling where
  unchanged party request told stores store unchanged := by
    simp [telling, unchanged]
  apart party request told first second store same := by
    simp [telling, same]
  answered party request told first second same := by
    rw [Bool.eq_iff_iff]
    simp only [telling, List.any_eq_true]
    exact exists_congr fun store => and_congr_right fun read => by rw [same store read]

/-- Nobody was told. -/
structure Silent (world : World υ κ Bool Bool) : Prop where
  stores : ∀ store, world.stores store = false
  heard : ∀ party, true ∉ world.heard party

theorem Silent.turn {world : World υ κ Bool Bool} (silent : Silent world) (event : υ × ρ) :
    Silent (Foundation.turn intruder access.telling (passing intruder false) world event) := by
  constructor
  · intro store
    simp [Foundation.turn, passing, telling, silent.heard event.1, silent.stores]
  · intro party
    have old := silent.heard party
    simp only [Foundation.turn, passing, telling]
    split
    · simpa [silent.stores] using old
    · exact old

/-- While the intruder does not start it, nobody is told. -/
theorem silent_run (turns : List (υ × ρ)) :
    Silent (run (turn intruder access.telling (passing intruder false)) untold turns) := by
  have along : Along (turn intruder access.telling (passing intruder false)) (fun _ _ => True)
      untold turns := along_of_forall fun _ _ => trivial
  apply along.invariant
  · exact ⟨fun _ => rfl, fun _ => List.not_mem_nil⟩
  · exact fun _ event silent _ => silent.turn event

/-- Who has something to pass on tells it to a store he may change. -/
theorem turn_tells {world : World υ κ Bool Bool} {writer : υ} {request : ρ} {store : κ}
    (knows : Knows intruder world writer) (changed : access.changes writer request store = true) :
    (turn intruder access.telling (passing intruder true) world (writer, request)).stores store =
      true := by
  have tells : ((world.heard writer).contains true || (writer = intruder && true)) = true := by
    cases knows with
    | inl heard => simp [heard]
    | inr here => simp [here]
  simp only [turn, passing, telling, changed]
  rw [tells, Bool.and_true, Bool.or_true]

/-- Who asks a store that was told has something to pass on. -/
theorem turn_hears {starts : Bool} {world : World υ κ Bool Bool} {reader : υ} {asked : ρ}
    {store : κ} (told : world.stores store = true) (reads : store ∈ access.reads reader asked) :
    Knows intruder (turn intruder access.telling (passing intruder starts) world (reader, asked))
      reader := by
  left
  simp only [turn, passing, telling, true_or, if_true]
  apply List.mem_append_right
  rw [List.mem_singleton]
  exact (List.any_eq_true.mpr ⟨store, reads, told⟩).symm

/-- Every tainted party can be told by a run. -/
theorem tainted_knows {party : υ} (tainted : access.Tainted intruder party) :
    ∃ turns, Knows intruder
      (run (turn intruder access.telling (passing intruder true)) untold turns) party := by
  induction tainted with
  | self => exact ⟨[], .inr rfl⟩
  | @heard writer reader request asked store _ changed reads ih =>
    obtain ⟨turns, knows⟩ := ih
    refine ⟨turns ++ [(writer, request)] ++ [(reader, asked)], ?_⟩
    rw [run_concat]
    apply turn_hears _ reads
    rw [run_concat]
    exact turn_tells knows changed

end Relay

/-- The intruder makes no difference to a store under every service that keeps the frame,
exactly where he does not reach it. -/
theorem isolated_iff {access : Access υ κ ρ} {intruder : υ} {store : κ} :
    (∀ (ι δ σ α : Type) (service : Service υ κ ρ δ σ α), access.Confines service →
      Isolated ι service intruder store) ↔ ¬ access.Reached intruder store := by
  constructor
  · rintro isolated ⟨writer, request, tainted, changed⟩
    obtain ⟨turns, knows⟩ := tainted_knows tainted
    have same : ∀ party, party ≠ intruder →
        (passing intruder true party : ρ → List Bool → ρ × Bool) =
          passing intruder false party := by
      intro party apart
      funext request heard
      simp [passing, apart]
    have equal := isolated ρ Bool Bool Bool access.telling confines_telling _ _ same untold
      (turns ++ [(writer, request)])
    rw [(silent_run _).stores, run_concat, turn_tells knows changed] at equal
    exact Bool.noConfusion equal
  · intro outside ι δ σ α service frame programs other same start turns
    have alike : access.Alike intruder start start := ⟨fun _ _ => rfl, fun _ _ => rfl⟩
    exact (run_alike frame same turns alike).stores store outside

end Access

end Foundation
