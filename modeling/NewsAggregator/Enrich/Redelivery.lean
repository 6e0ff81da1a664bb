import Mathlib.Algebra.Order.Ring.Rat
import NewsAggregator.Enrich.Db
import NewsAggregator.Foundation.Run
import NewsAggregator.Foundation.Upsert

/-! Redelivered tally flushes in any order: the counts are those of the first flush to
arrive, the health beat is that of the last one. -/

namespace NewsAggregator

variable {K : Type} [Semiring K] [LinearOrder K]

/-- What the flush counts for a key of `entity_tallies`. -/
def TallyFlush.countOf (flush : TallyFlush K) (key : String × Int × String) : Option ℕ :=
  if key.2 = (flush.bucketTs, flush.replica) then flush.counts.lookup key.1 else none

def TallyFlush.health (flush : TallyFlush K) : Enrich.Health K :=
  ⟨flush.samplingActive, flush.theta, flush.flushedAt⟩

end NewsAggregator

namespace NewsAggregator.Enrich

open Foundation

variable {K : Type} [Semiring K] [LinearOrder K]

namespace TallyStore

def mentionsOf (store : TallyStore K) (key : String × Int × String) : Option ℕ :=
  (store.entityTallies.find? fun row => row.key = key).map TallyRow.mentions

def healthOf (store : TallyStore K) (replica : String) : Option (Health K) :=
  store.systemState.lookup ("enrich:" ++ replica)

/-- The same rows and the same health beats. -/
structure SameContents (first second : TallyStore K) : Prop where
  mentions : ∀ key, first.mentionsOf key = second.mentionsOf key
  health : ∀ replica, first.healthOf replica = second.healthOf replica

end TallyStore

/-- One delivery, cut off after some of its statements. -/
structure TallyDelivery (K : Type) [Semiring K] [LinearOrder K] where
  flush : TallyFlush K
  cut : Option ℕ := none

def deliver (store : TallyStore K) (delivery : TallyDelivery K) : TallyStore K :=
  (Program.execute tallyExec delivery.cut (handleTally delivery.flush) store).2

/-- Flushes in the order they were made, and deliveries of them, each at least once
to its end. -/
structure Redelivery (K : Type) [Semiring K] [LinearOrder K] where
  messages : List (TallyFlush K)
  deliveries : List (TallyDelivery K)
  flushed : messages.Pairwise fun earlier later => earlier.flushedAt ≤ later.flushedAt
  sent : ∀ delivery ∈ deliveries, delivery.flush ∈ messages
  completed : ∀ message ∈ messages, ∃ delivery ∈ deliveries,
    delivery.flush = message ∧ Program.Reached delivery.cut 2

/-- The flushes whose first statements took effect. -/
def reaching (count : ℕ) (deliveries : List (TallyDelivery K)) : List (TallyFlush K) :=
  (deliveries.filter fun delivery => Program.Reached delivery.cut count).map TallyDelivery.flush

def firstCount (flushes : List (TallyFlush K)) (key : String × Int × String) : Option ℕ :=
  flushes.findSome? fun flush => flush.countOf key

def lastHealth (flushes : List (TallyFlush K)) (replica : String) : Option (Health K) :=
  (flushes.reverse.find? fun flush => flush.replica = replica).map TallyFlush.health

namespace Redelivery

def delivered (schedule : Redelivery K) (start : TallyStore K) : TallyStore K :=
  run deliver start schedule.deliveries

/-- Every message once, in the order of the flushes. -/
def inOrder (schedule : Redelivery K) (start : TallyStore K) : TallyStore K :=
  run deliver start (schedule.messages.map fun flush => { flush })

/-- The first flush to arrive gives a new key the count of the first one made, and the
last one to arrive is a replica's newest. -/
structure Arrives (schedule : Redelivery K) (start : TallyStore K) : Prop where
  first : ∀ key, start.mentionsOf key = none →
    firstCount (reaching 1 schedule.deliveries) key = firstCount schedule.messages key
  last : ∀ replica, lastHealth (reaching 2 schedule.deliveries) replica =
    lastHealth schedule.messages replica

end Redelivery

section Delivery

theorem systemState_insertTallies (store : TallyStore K) (flush : TallyFlush K) :
    (insertTallies store flush).systemState = store.systemState := by
  rw [insertTallies]
  split <;> rfl

/-- The two statements of a delivery, as far as it got. -/
theorem deliver_eq (store : TallyStore K) (delivery : TallyDelivery K) :
    (deliver store delivery).entityTallies =
        (if Program.Reached delivery.cut 1 then
          (insertTallies store delivery.flush).entityTallies else store.entityTallies) ∧
      (deliver store delivery).systemState =
        (if Program.Reached delivery.cut 2 then keepLast store.systemState
          ("enrich:" ++ delivery.flush.replica) delivery.flush.health else store.systemState) := by
  obtain ⟨flush, cut⟩ := delivery
  have yields := Program.execute_yields tallyExec cut (handleTally flush) store
  change Program.Yields tallyExec cut 0 (handleTally flush) store _ (deliver store ⟨flush, cut⟩)
    at yields
  rw [handleTally, Program.perform_bind, Program.yields_call] at yields
  rcases yields with ⟨stop, same, _⟩ | ⟨on, later⟩
  · rw [same, if_neg (Program.not_reached stop (by decide)),
      if_neg (Program.not_reached stop (by decide))]
    exact ⟨rfl, rfl⟩
  · have first : Program.Reached cut 1 := (Program.reached_zero cut).succ on
    rw [if_pos first]
    rcases Program.yields_call.mp later with ⟨stop, same, _⟩ | ⟨on, ended⟩
    · rw [same, if_neg (Program.not_reached stop (by decide))]
      exact ⟨rfl, systemState_insertTallies store flush⟩
    · rw [if_pos (first.succ on), (Program.yields_done.mp ended).1]
      refine ⟨rfl, congrArg (keepLast · _ _) (systemState_insertTallies store flush)⟩

theorem countOf_eq (flush : TallyFlush K) (key : String × Int × String) :
    ((tallyRows flush).find? fun row => row.key = key).map TallyRow.mentions =
      flush.countOf key := by
  obtain ⟨entity, place⟩ := key
  rw [tallyRows, TallyFlush.countOf]
  induction flush.counts with
  | nil => simp
  | cons entry rest ih =>
    obtain ⟨counted, count⟩ := entry
    rw [List.map_cons, List.find?_cons, List.lookup_cons]
    by_cases placed : place = (flush.bucketTs, flush.replica)
    · subst placed
      by_cases same : entity = counted
      · simp [TallyRow.key, same]
      · have apart : (entity == counted) = false := beq_eq_false_iff_ne.mpr same
        rw [if_pos rfl] at ih ⊢
        simpa [TallyRow.key, Ne.symm same, apart] using ih
    · have elsewhere : ¬ (counted, flush.bucketTs, flush.replica) = (entity, place) :=
        fun same => placed (congrArg Prod.snd same).symm
      rw [if_neg placed] at ih ⊢
      simpa [TallyRow.key, elsewhere] using ih

theorem mentionsOf_deliver (store : TallyStore K) (delivery : TallyDelivery K)
    (key : String × Int × String) : (deliver store delivery).mentionsOf key =
      (store.mentionsOf key).or (if Program.Reached delivery.cut 1 then
        delivery.flush.countOf key else none) := by
  rw [TallyStore.mentionsOf, (deliver_eq store delivery).1]
  split
  · rw [entityTallies_insertTallies, ← countOf_eq, TallyStore.mentionsOf, ← Option.map_or]
    exact congrArg (Option.map _) (find?_foldl_keepFirst TallyRow.key _ _ key)
  · rw [Option.or_none, TallyStore.mentionsOf]

theorem healthOf_deliver (store : TallyStore K) (delivery : TallyDelivery K) (replica : String) :
    (deliver store delivery).healthOf replica =
      if Program.Reached delivery.cut 2 ∧ delivery.flush.replica = replica then
        some delivery.flush.health else store.healthOf replica := by
  rw [TallyStore.healthOf, (deliver_eq store delivery).2]
  by_cases reached : Program.Reached delivery.cut 2
  · rw [if_pos reached, lookup_keepLast]
    by_cases own : delivery.flush.replica = replica
    · rw [if_pos (congrArg _ own.symm), if_pos ⟨reached, own⟩]
    · have apart : "enrich:" ++ replica ≠ "enrich:" ++ delivery.flush.replica :=
        fun same => own ((String.append_right_inj _).mp same).symm
      rw [if_neg apart, if_neg fun both => own both.2, TallyStore.healthOf]
  · rw [if_neg reached, if_neg fun both => reached both.1, TallyStore.healthOf]

end Delivery

section Schedule

theorem reaching_cons (count : ℕ) (delivery : TallyDelivery K)
    (rest : List (TallyDelivery K)) : reaching count (delivery :: rest) =
      if Program.Reached delivery.cut count then delivery.flush :: reaching count rest
      else reaching count rest := by
  rw [reaching, List.filter_cons]
  by_cases reached : Program.Reached delivery.cut count
  · simp [reached, reaching]
  · simp [reached, reaching]

theorem firstCount_cons (flush : TallyFlush K) (rest : List (TallyFlush K))
    (key : String × Int × String) :
    firstCount (flush :: rest) key = (flush.countOf key).or (firstCount rest key) := by
  rw [firstCount, List.findSome?_cons]
  cases flush.countOf key <;> rfl

theorem lastHealth_cons (flush : TallyFlush K) (rest : List (TallyFlush K)) (replica : String) :
    lastHealth (flush :: rest) replica =
      (lastHealth rest replica).or
        (if flush.replica = replica then some flush.health else none) := by
  rw [lastHealth, List.reverse_cons, List.find?_append, Option.map_or, lastHealth]
  by_cases own : flush.replica = replica
  · simp [own]
  · simp [own]

theorem mentionsOf_run (store : TallyStore K) (deliveries : List (TallyDelivery K))
    (key : String × Int × String) : (run deliver store deliveries).mentionsOf key =
      (store.mentionsOf key).or (firstCount (reaching 1 deliveries) key) := by
  induction deliveries generalizing store with
  | nil => exact (Option.or_none).symm
  | cons delivery rest ih =>
    rw [run_cons, ih, mentionsOf_deliver, Option.or_assoc, reaching_cons]
    by_cases reached : Program.Reached delivery.cut 1
    · rw [if_pos reached, if_pos reached, firstCount_cons]
    · rw [if_neg reached, if_neg reached, Option.none_or]

theorem healthOf_run (store : TallyStore K) (deliveries : List (TallyDelivery K))
    (replica : String) : (run deliver store deliveries).healthOf replica =
      (lastHealth (reaching 2 deliveries) replica).or (store.healthOf replica) := by
  induction deliveries generalizing store with
  | nil => rfl
  | cons delivery rest ih =>
    rw [run_cons, ih, healthOf_deliver, reaching_cons]
    by_cases reached : Program.Reached delivery.cut 2
    · rw [if_pos reached, lastHealth_cons, Option.or_assoc]
      by_cases own : delivery.flush.replica = replica
      · rw [if_pos ⟨reached, own⟩, if_pos own, Option.some_or]
      · rw [if_neg fun both => own both.2, if_neg own, Option.none_or]
    · rw [if_neg reached, if_neg fun both => reached both.1]

theorem reaching_whole (count : ℕ) (messages : List (TallyFlush K)) :
    reaching count (messages.map fun flush => { flush }) = messages := by
  induction messages with
  | nil => rfl
  | cons flush rest ih =>
    have whole : Program.Reached none count := fun _ none => nomatch none
    rw [List.map_cons, reaching_cons, if_pos whole, ih]

theorem lastHealth_isSome {flushes : List (TallyFlush K)} {replica : String} :
    (lastHealth flushes replica).isSome ↔ ∃ flush ∈ flushes, flush.replica = replica := by
  simp [lastHealth, List.find?_isSome]

/-- Every replica that flushed has a delivery that ran to its end. -/
theorem Redelivery.lastHealth_isSome_iff (schedule : Redelivery K) (replica : String) :
    (lastHealth (reaching 2 schedule.deliveries) replica).isSome ↔
      (lastHealth schedule.messages replica).isSome := by
  rw [lastHealth_isSome, lastHealth_isSome]
  constructor
  · rintro ⟨flush, member, own⟩
    obtain ⟨delivery, kept, rfl⟩ := List.mem_map.mp member
    exact ⟨_, schedule.sent delivery (List.mem_of_mem_filter kept), own⟩
  · rintro ⟨flush, member, own⟩
    obtain ⟨delivery, there, rfl, reached⟩ := schedule.completed flush member
    refine ⟨_, List.mem_map.mpr ⟨delivery, List.mem_filter.mpr ⟨there, ?_⟩, rfl⟩, own⟩
    exact decide_eq_true reached

/-- Redelivery leaves what one delivery of each flush in order would leave exactly if
the first of them to arrive, and the last of them, are the ones in order. -/
theorem redelivered_iff (schedule : Redelivery K) (start : TallyStore K) :
    (schedule.delivered start).SameContents (schedule.inOrder start) ↔
      schedule.Arrives start := by
  have mentions : ∀ key, (schedule.delivered start).mentionsOf key =
      (schedule.inOrder start).mentionsOf key ↔
        (start.mentionsOf key = none → firstCount (reaching 1 schedule.deliveries) key =
          firstCount schedule.messages key) := by
    intro key
    rw [Redelivery.delivered, Redelivery.inOrder, mentionsOf_run, mentionsOf_run, reaching_whole]
    cases start.mentionsOf key with
    | none => simp
    | some stored => simp
  have health : ∀ replica, (schedule.delivered start).healthOf replica =
      (schedule.inOrder start).healthOf replica ↔
        lastHealth (reaching 2 schedule.deliveries) replica =
          lastHealth schedule.messages replica := by
    intro replica
    rw [Redelivery.delivered, Redelivery.inOrder, healthOf_run, healthOf_run, reaching_whole]
    have both := schedule.lastHealth_isSome_iff replica
    cases arrived : lastHealth (reaching 2 schedule.deliveries) replica with
    | none =>
      have silent : lastHealth schedule.messages replica = none := by
        simpa [arrived] using both
      simp [silent]
    | some beat =>
      obtain ⟨newest, flushed⟩ : ∃ newest, lastHealth schedule.messages replica = some newest := by
        rw [arrived] at both
        exact Option.isSome_iff_exists.mp (both.mp rfl)
      rw [flushed, Option.some_or, Option.some_or]
  constructor
  · rintro ⟨sameMentions, sameHealth⟩
    exact ⟨fun key => (mentions key).mp (sameMentions key),
      fun replica => (health replica).mp (sameHealth replica)⟩
  · rintro ⟨first, last⟩
    exact ⟨fun key => (mentions key).mpr (first key),
      fun replica => (health replica).mpr (last replica)⟩

end Schedule

/-- A replica's flush of one minute; it sheds from the second minute on. -/
def minuteFlush (flushedAt : Int) : TallyFlush ℚ where
  bucketTs := flushedAt
  counts := []
  samplingActive := 60000000 ≤ flushedAt
  replica := "a"
  flushedAt := flushedAt
  distinct := List.nodup_nil
  countsCap := Nat.zero_le _
  keysCap := fun _ member => absurd member List.not_mem_nil
  thetaRange := ⟨le_refl 0, zero_le_one⟩
  replicaCap := by decide

/-- The first flush fails, and is redelivered after the second one. -/
def delayed : Redelivery ℚ where
  messages := [minuteFlush 0, minuteFlush 60000000]
  deliveries := [⟨minuteFlush 0, some 0⟩, ⟨minuteFlush 60000000, none⟩, ⟨minuteFlush 0, none⟩]
  flushed := by decide
  sent := by simp
  completed := by simp [Program.Reached]

/-- The beat that is kept is the old one. -/
theorem delayed_beat : ¬ (delayed.delivered {}).SameContents (delayed.inOrder {}) := by
  intro same
  have stale : ((delayed.delivered {}).healthOf "a").map Health.flushedAt = some 0 := by
    decide +kernel
  have newest : ((delayed.inOrder {}).healthOf "a").map Health.flushedAt = some 60000000 := by
    decide +kernel
  rw [same.health "a", newest] at stale
  cases stale

end NewsAggregator.Enrich
