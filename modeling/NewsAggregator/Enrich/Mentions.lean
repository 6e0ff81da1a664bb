import Mathlib.Algebra.BigOperators.Group.Finset.Basic
import Mathlib.Algebra.Order.BigOperators.Group.Finset
import NewsAggregator.Enrich.Consumer

/-! The mentions of the firehose: the consumer's counter next to the flusher that
drains it, over deliveries that fail and come again. -/

namespace NewsAggregator.Enrich

open Foundation Dedup

variable {K σ : Type} [Field K] [LinearOrder K]

/-- The worker and the windows its flusher has drained. -/
structure Firehose (K σ : Type) [Field K] where
  system : System K σ
  windows : List (Counter String) := []

inductive FirehoseEvent (K : Type) where
  | deliver (delivery : Delivery K)
  | drain

def Deployment.firehose (d : Deployment K σ) : Firehose K σ := { system := d.start }

def firehoseStep (d : Deployment K σ) (state : Firehose K σ) : FirehoseEvent K → Firehose K σ
  | .deliver delivery => { state with system := step d state.system delivery }
  | .drain =>
    let (window, mentions) := drainMentions state.system.inference.mentions
    { system := { state.system with inference := { state.system.inference with mentions } }
      windows := state.windows ++ [window] }

/-- All counts of the entity: in the drained windows and in the counter. -/
def Firehose.counted (state : Firehose K σ) (entity : String) : ℕ :=
  (state.windows.map fun window => window.count entity).sum +
    state.system.inference.mentions.count entity

/-- The keys under which the hits in an item's text are counted. -/
def Worker.mentioned (worker : Worker K σ) (item : Item) : List String :=
  ((worker.gazetteer.matchText worker.py item.text).getD []).map fun entity =>
    worker.py.casefold entity.text

/-- The keys of a message's hits, if it reaches the handler. -/
def Deployment.mentioned (d : Deployment K σ) (seq : ℕ) : List String :=
  ((d.item seq).map d.toWorker.mentioned).getD []

/-- The messages of the deliveries, in their order. -/
def delivered (events : List (FirehoseEvent K)) : List ℕ :=
  events.filterMap fun
    | .deliver delivery => some delivery.seq
    | .drain => none

/-- No message with a gazetteer hit is delivered a second time. -/
def DeliveredOnce (d : Deployment K σ) (events : List (FirehoseEvent K)) : Prop :=
  ∀ seq ∈ delivered events, d.mentioned seq ≠ [] → (delivered events).count seq = 1

omit [LinearOrder K] in
instance (d : Deployment K σ) (events : List (FirehoseEvent K)) :
    Decidable (DeliveredOnce d events) :=
  inferInstanceAs (Decidable (∀ seq ∈ delivered events, _))

section Step

variable {d : Deployment K σ} {state : Firehose K σ}

/-- Whatever becomes of an attempt, it counts all hits of the text or nothing, and
nothing only where the match itself raises. -/
theorem mentions_handled {worker : Worker K σ} {attempt : Attempt K} {item : Item}
    {inf after : Inference K σ} {result : Option Fate}
    (handled : Handled worker attempt item inf result after) :
    after.mentions = inf.mentions.addAll (worker.mentioned item) := by
  have hits {merged : Item} {mentions : Counter String}
      (tallied : tally worker.py worker.gazetteer item inf.mentions = some (merged, mentions)) :
      mentions = inf.mentions.addAll (worker.mentioned item) := by
    obtain ⟨entities, matched, same⟩ := Option.bind_eq_some_iff.mp tallied
    cases same
    rw [Worker.mentioned, matched]
    rfl
  cases handled with
  | untallied rejected =>
    have raised : worker.gazetteer.matchText worker.py item.text = none := by
      cases matched : worker.gazetteer.matchText worker.py item.text with
      | none => rfl
      | some entities =>
        rw [tally, matched] at rejected
        cases rejected
    rw [Worker.mentioned, raised]
    rfl
  | duplicate tallied => exact hits tallied
  | unscored tallied => exact hits tallied
  | shed tallied => exact hits tallied
  | lost tallied => exact hits tallied
  | published tallied => exact hits tallied

theorem mentions_step (system : System K σ) (delivery : Delivery K) :
    (step d system delivery).inference.mentions =
      system.inference.mentions.addAll (d.mentioned delivery.seq) := by
  unfold Deployment.mentioned
  cases seen : d.item delivery.seq with
  | none =>
    rw [step_dropped seen]
    rfl
  | some item =>
    obtain ⟨result, after, handled, _, next⟩ := step_handled system seen
    rw [next]
    exact mentions_handled handled

/-- A message is acked only after a delivery. -/
theorem acked_step {system : System K σ} {delivery : Delivery K} {seq : ℕ}
    (acked : seq ∈ (step d system delivery).acked) :
    seq ∈ system.acked ∨ seq = delivery.seq := by
  cases seen : d.item delivery.seq with
  | none =>
    rw [step_dropped seen] at acked
    exact .inl acked
  | some item =>
    obtain ⟨result, after, _, _, next⟩ := step_handled system seen
    rw [next] at acked
    dsimp only at acked
    split at acked
    · rcases Finset.mem_insert.mp acked with same | old
      · exact .inr same
      · exact .inl old
    · exact .inl acked

theorem counted_step (event : FirehoseEvent K) (entity : String) :
    (firehoseStep d state event).counted entity = state.counted entity +
      ((delivered [event]).map fun seq => (d.mentioned seq).count entity).sum := by
  cases event with
  | deliver delivery =>
    simp [firehoseStep, Firehose.counted, delivered, mentions_step, Counter.count_addAll, add_assoc]
  | drain => simp [firehoseStep, Firehose.counted, delivered, drainMentions]

end Step

section Run

variable {d : Deployment K σ}

theorem counted_run (events : List (FirehoseEvent K)) (state : Firehose K σ) (entity : String) :
    (run (firehoseStep d) state events).counted entity = state.counted entity +
      ((delivered events).map fun seq => (d.mentioned seq).count entity).sum := by
  induction events generalizing state with
  | nil => simp [delivered]
  | cons event rest ih =>
    have split : delivered (event :: rest) = delivered [event] ++ delivered rest :=
      List.filterMap_append (l := [event])
    rw [run_cons, ih, counted_step, split, List.map_append, List.sum_append, add_assoc]

theorem acked_run (events : List (FirehoseEvent K)) (state : Firehose K σ) {seq : ℕ}
    (acked : seq ∈ (run (firehoseStep d) state events).system.acked) :
    seq ∈ state.system.acked ∨ seq ∈ delivered events := by
  induction events generalizing state with
  | nil => exact .inl acked
  | cons event rest ih =>
    rcases ih (firehoseStep d state event) acked with before | later
    · cases event with
      | drain => exact .inl before
      | deliver delivery =>
        rcases acked_step before with old | rfl
        · exact .inl old
        · exact .inr (by simp [delivered])
    · refine .inr ?_
      cases event with
      | drain => exact later
      | deliver delivery => exact List.mem_cons_of_mem _ later

end Run

/-- Once all messages are acked, every entity is counted as often as the messages
mention it, if and only if no message that mentions one is delivered twice. -/
theorem mentions_counted_iff (d : Deployment K σ) (messages : Finset ℕ)
    (events : List (FirehoseEvent K)) (sent : ∀ seq ∈ delivered events, seq ∈ messages)
    (acked : ∀ seq ∈ messages, seq ∈ (run (firehoseStep d) d.firehose events).system.acked) :
    (∀ entity, (run (firehoseStep d) d.firehose events).counted entity =
        ∑ seq ∈ messages, (d.mentioned seq).count entity) ↔ DeliveredOnce d events := by
  have arrived (seq : ℕ) (member : seq ∈ messages) : seq ∈ delivered events := by
    rcases acked_run events d.firehose (acked seq member) with before | later
    · cases before
    · exact later
  have total (entity : String) : (run (firehoseStep d) d.firehose events).counted entity =
      ∑ seq ∈ messages, (delivered events).count seq * (d.mentioned seq).count entity := by
    have same : (delivered events).toFinset = messages := by
      ext seq
      rw [List.mem_toFinset]
      exact ⟨sent seq, arrived seq⟩
    rw [counted_run, Finset.sum_list_map_count, same]
    simp [Deployment.firehose, Deployment.start, Firehose.counted]
  have atLeast (entity : String) (seq : ℕ) (member : seq ∈ messages) :
      (d.mentioned seq).count entity ≤
        (delivered events).count seq * (d.mentioned seq).count entity :=
    Nat.le_mul_of_pos_left _ (List.count_pos_iff.mpr (arrived seq member))
  constructor
  · intro exact seq delivered mentions
    obtain ⟨entity, hit⟩ := List.exists_mem_of_ne_nil _ mentions
    have equal := (Finset.sum_eq_sum_iff_of_le (atLeast entity)).mp
      ((exact entity).symm.trans (total entity)) seq (sent seq delivered)
    exact Nat.eq_of_mul_eq_mul_right (List.count_pos_iff.mpr hit) (by omega)
  · intro once entity
    rw [total]
    refine Finset.sum_congr rfl fun seq member => ?_
    by_cases mentions : d.mentioned seq = []
    · simp [mentions]
    · rw [once seq (arrived seq member) mentions, one_mul]

theorem defaultCap_pos : 0 < 50000 := by decide

/-- A stream of one report about one city. -/
def kyivStream : Deployment ℚ (List String) :=
  replicaOf (inMemory 50000 defaultCap_pos) [("ingest.usgs", notice 1 "usgs" "quake in Kyiv")]

theorem kyivStream_counted :
    let events : List (FirehoseEvent ℚ) := [.drain, .deliver ⟨0, plainAttempt⟩, .drain]
    ∀ entity, (run (firehoseStep kyivStream) kyivStream.firehose events).counted entity =
      ∑ seq ∈ {0}, (kyivStream.mentioned seq).count entity := by
  intro events
  exact (mentions_counted_iff kyivStream {0} events (by decide +kernel) (by decide +kernel)).mpr
    (by decide +kernel)

/-- The publish fails once, and the one mention of the message is counted twice. -/
theorem mention_counted_twice :
    let events : List (FirehoseEvent ℚ) :=
      [.deliver ⟨0, { plainAttempt with sent := false }⟩, .drain, .deliver ⟨0, plainAttempt⟩]
    0 ∈ (run (firehoseStep kyivStream) kyivStream.firehose events).system.acked ∧
      (kyivStream.mentioned 0).count "kyiv" = 1 ∧
      (run (firehoseStep kyivStream) kyivStream.firehose events).counted "kyiv" = 2 := by
  decide +kernel

end NewsAggregator.Enrich
