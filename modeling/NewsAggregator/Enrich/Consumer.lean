import Mathlib.Algebra.Field.Rat
import Mathlib.Algebra.Order.Ring.Unbundled.Rat
import Mathlib.Data.Finset.Insert
import NewsAggregator.Enrich.Inference
import NewsAggregator.Foundation.Run

/-! The enrich consumer over whole runs: the messages of INGEST go through the
handler one at a time, in any order and any number of times. -/

namespace NewsAggregator.Enrich

open Foundation Dedup Bus

variable {K σ : Type} [Field K] [LinearOrder K]

/-- A worker and the messages of the stream by sequence number. -/
structure Deployment (K σ : Type) extends Worker K σ where
  maxMsgBytes : ℕ := 65536
  stream : ℕ → Message Item

/-- The worker's state, what it has published so far, the keys of the items it
shed, and the messages that were acked. -/
structure System (K σ : Type) [Field K] where
  inference : Inference K σ
  enriched : List (String × EnrichedItem) := []
  declined : List String := []
  acked : Finset ℕ := ∅

structure Delivery (K : Type) where
  seq : ℕ
  attempt : Attempt K

def Deployment.start (d : Deployment K σ) : System K σ :=
  { inference := { dedup := d.dedup.empty } }

/-- The item the handler gets to see of a message. -/
def Deployment.item (d : Deployment K σ) (seq : ℕ) : Option Item :=
  accepted d.maxMsgBytes (d.stream seq)

def Fate.publication : Fate → Option (String × EnrichedItem)
  | .published subject enriched => some (subject, enriched)
  | _ => none

def Fate.declines (item : Item) : Fate → Option String
  | .shed => some (dedupKey item)
  | _ => none

/-- How the handler returns for a delivered message, if it gets to see it. -/
def Deployment.fate (d : Deployment K σ) (system : System K σ) (event : Delivery K) : Option Fate :=
  (d.item event.seq).bind fun item => (d.handle event.attempt item system.inference).1

def step (d : Deployment K σ) (system : System K σ) (event : Delivery K) : System K σ :=
  let handler item inf := ((d.handle event.attempt item inf).1.map fun _ => (),
    (d.handle event.attempt item inf).2)
  let (reply, inference) :=
    consumeValidated d.maxMsgBytes handler (d.stream event.seq) system.inference
  let fate := d.fate system event
  { inference
    enriched := system.enriched ++ (fate.bind Fate.publication).toList
    declined := system.declined ++
      ((d.item event.seq).bind fun item => fate.bind (Fate.declines item)).toList
    acked := if reply = .ack then insert event.seq system.acked else system.acked }

section Step

variable {d : Deployment K σ} {system : System K σ} {event : Delivery K}

theorem step_dropped (dropped : d.item event.seq = none) :
    step d system event = system := by
  have reply := fun handler => consumeValidated_dropped handler system.inference dropped
  simp [step, reply, Deployment.fate, dropped]

/-- One delivery of a message that reaches the handler. -/
theorem step_handled (system : System K σ) {item : Item} (handled : d.item event.seq = some item) :
    ∃ result after, Handled d.toWorker event.attempt item system.inference result after ∧
      d.handle event.attempt item system.inference = (result, after) ∧
      step d system event = {
        inference := after
        enriched := system.enriched ++ (result.bind Fate.publication).toList
        declined := system.declined ++ (result.bind (Fate.declines item)).toList
        acked := if result.isSome then insert event.seq system.acked else system.acked } := by
  refine ⟨_, _, handle_handled .., rfl, ?_⟩
  have reply := fun handler => consumeValidated_accepted handler system.inference handled
  unfold step Deployment.fate
  simp only [reply, handled, Option.bind_some, Option.isSome_map]
  cases (d.handle event.attempt item system.inference).1 <;> rfl

end Step

/-- A worker on plain text, with a stream of messages by subject. -/
def replicaOf {σ : Type} (dedup : Deduper σ) (messages : List (String × Item)) :
    Deployment ℚ σ where
  py := .plain
  math := { exp := fun _ => 1, log := fun _ => 0 }
  dedup := dedup
  gazetteer := .seed
  jsonSize _ := 16384
  stream seq := { subject := (messages[seq]?.map Prod.fst).getD "", size := 1024,
                  payload := messages[seq]?.map Prod.snd }

/-- Models that answer and a broker that does. -/
def plainAttempt : Attempt ℚ where
  classifier _ := some (3 / 10)
  now := 0
  random := 1
  ner _ := some []
  encode _ := some fun _ => 1

end NewsAggregator.Enrich
