import Mathlib.Data.Finset.Basic
import NewsAggregator.Bus.Client
import NewsAggregator.Cluster.Handle
import NewsAggregator.Foundation.Run

/-! The cluster consumer over whole runs: one handler at a time, any statement may
fail, and a message whose handler failed is delivered again. -/

namespace NewsAggregator.Cluster

open Bus Trust Foundation

/-- What a run takes as given: the runtime, the settings and the messages of the
stream by sequence number. -/
structure Deployment where
  py : Python
  pg : Postgres
  cfg : Config := {}
  maxMsgBytes : ℕ := 81920
  stream : ℕ → Message EnrichedItem

/-- The tables, the messages that wait for their redelivery, and those that were
handled to the end at least once. -/
structure System where
  store : Store := {}
  waiting : Finset ℕ := ∅
  acked : Finset ℕ := ∅

/-- What an attempt meets: its clock and `uuid4`, the index, and the statement
after which it fails, if one does (the next one may find no partition). -/
structure Attempt where
  draw : Draw
  surfaced : List (Uuid × Int) := []
  cut : Option ℕ := none

/-- The writer stores an item, a message is delivered, or the trust worker
promotes a Story. -/
inductive Event where
  | write (enriched : EnrichedItem)
  | deliver (seq : ℕ) (attempt : Attempt)
  | promote (storyId : Uuid)

def Deployment.attempt (d : Deployment) (attempt : Attempt) (enriched : EnrichedItem)
    (store : Store) : Option Unit × Store :=
  Program.execute (exec d.py d.pg attempt.surfaced) attempt.cut
    (handle d.py d.cfg attempt.draw enriched) store

/-- The delivery of one message, with the reply it gets. -/
def Deployment.deliver (d : Deployment) (seq : ℕ) (attempt : Attempt) (store : Store) :
    Reply × Store :=
  consumeValidated d.maxMsgBytes (d.attempt attempt) (d.stream seq) store

/-- The system after an attempt at a message: it waits exactly if it failed. -/
def System.settle (system : System) (seq : ℕ) (result : Option Unit) (final : Store) : System where
  store := final
  waiting := if result.isSome then system.waiting.erase seq else insert seq system.waiting
  acked := if result.isSome then insert seq system.acked else system.acked

@[simp] theorem System.settle_store (system : System) (seq : ℕ) (result : Option Unit)
    (final : Store) : (system.settle seq result final).store = final := rfl

def step (d : Deployment) (system : System) : Event → System
  | .write enriched => { system with store := insertItem system.store enriched }
  | .deliver seq attempt =>
    let (reply, store) := d.deliver seq attempt system.store
    { store
      waiting := if reply = .nak then insert seq system.waiting else system.waiting.erase seq
      acked := if reply = .ack then insert seq system.acked else system.acked }
  | .promote storyId => { system with store := promotePrimaryBacked system.store storyId }

/-- The item the handler gets to see of a message. -/
def Deployment.item (d : Deployment) (seq : ℕ) : Option EnrichedItem :=
  accepted d.maxMsgBytes (d.stream seq)

/-- A drawn `uuid4` is no Story's id. -/
def FreshDraw (system : System) : Event → Prop
  | .deliver _ attempt => system.store.storyRow attempt.draw.uuid4 = none ∧
      ∀ row ∈ system.store.items, row.storyId ≠ some attempt.draw.uuid4
  | _ => True

instance (system : System) : DecidablePred (FreshDraw system)
  | .write _ => isTrue trivial
  | .promote _ => isTrue trivial
  | .deliver _ _ => inferInstanceAs (Decidable (_ ∧ _))

/-- A message for the row waits for its redelivery. -/
def Waits (d : Deployment) (system : System) (key : Uuid × Int) : Prop :=
  ∃ seq ∈ system.waiting, ∃ enriched ∈ d.item seq, enriched.item.key = key

instance (d : Deployment) (system : System) : DecidablePred (Waits d system) :=
  fun key => inferInstanceAs (Decidable (∃ seq ∈ system.waiting, ∃ enriched ∈ d.item seq,
    enriched.item.key = key))

/-- The writer stores no second item under an id. -/
def OwnId (system : System) : Event → Prop
  | .write enriched => ∀ row ∈ system.store.items, row.item.id = enriched.item.id →
      row.key = enriched.item.key
  | _ => True

instance (system : System) : DecidablePred (OwnId system)
  | .write _ => inferInstanceAs (Decidable (∀ row ∈ system.store.items, _))
  | .promote _ => isTrue trivial
  | .deliver _ _ => isTrue trivial

def DistinctIds (store : Store) : Prop := (store.items.map fun row => row.item.id).Nodup

variable {d : Deployment} {system : System} {seq : ℕ} {attempt : Attempt}

/-- A dropped message changes nothing. -/
theorem step_dropped (dropped : d.item seq = none) :
    step d system (.deliver seq attempt) =
      { system with waiting := system.waiting.erase seq } := by
  have reply : d.deliver seq attempt system.store = (.term, system.store) :=
    consumeValidated_dropped _ _ dropped
  simp [step, reply]

/-- What one delivery of a message that reaches the handler does. -/
theorem step_handled (system : System) (attempt : Attempt) {enriched : EnrichedItem}
    (handled : d.item seq = some enriched) :
    ∃ result final,
      d.attempt attempt enriched system.store = (result, final) ∧
      Leaves d.py d.pg d.cfg attempt.draw attempt.surfaced enriched attempt.cut system.store result
        final ∧
      step d system (.deliver seq attempt) = system.settle seq result final := by
  have leaves := handle_leaves (Program.execute_yields (exec d.py d.pg attempt.surfaced) attempt.cut
    (handle d.py d.cfg attempt.draw enriched) system.store)
  refine ⟨(d.attempt attempt enriched system.store).1, (d.attempt attempt enriched system.store).2,
    rfl, leaves, ?_⟩
  have reply := consumeValidated_accepted (d.attempt attempt) system.store handled
  have unfolded : step d system (.deliver seq attempt) = {
      store := (d.deliver seq attempt system.store).2
      waiting := if (d.deliver seq attempt system.store).1 = .nak then insert seq system.waiting
        else system.waiting.erase seq
      acked := if (d.deliver seq attempt system.store).1 = .ack then insert seq system.acked
        else system.acked } := rfl
  rw [unfolded, Deployment.deliver, reply]
  cases (d.attempt attempt enriched system.store).1 <;> rfl

theorem Waits.erase {key : Uuid × Int} (waits : Waits d system key) {seq : ℕ}
    (other : ∀ enriched, d.item seq = some enriched → enriched.item.key ≠ key) (store : Store)
    (acked : Finset ℕ) : Waits d { store, waiting := system.waiting.erase seq, acked } key := by
  obtain ⟨waiting, member, enriched, item, same⟩ := waits
  refine ⟨waiting, Finset.mem_erase.mpr ⟨?_, member⟩, enriched, item, same⟩
  rintro rfl
  exact other enriched item same

/-- A row of another item waits after an attempt if it did before. -/
theorem Waits.settle {key : Uuid × Int} (waits : Waits d system key) {seq : ℕ}
    {enriched : EnrichedItem} (handled : d.item seq = some enriched)
    (other : key ≠ enriched.item.key) (result : Option Unit) (final : Store) :
    Waits d (system.settle seq result final) key := by
  cases result with
  | none =>
    obtain ⟨waiting, present, rest⟩ := waits
    exact ⟨waiting, Finset.mem_insert_of_mem present, rest⟩
  | some ended =>
    refine waits.erase (fun another item same => other ?_) _ _
    rw [← same, Option.some.inj (handled.symm.trans item)]

/-- A failed attempt leaves its message waiting. -/
theorem waits_failed {seq : ℕ} {enriched : EnrichedItem} (handled : d.item seq = some enriched)
    (final : Store) : Waits d (system.settle seq none final) enriched.item.key :=
  ⟨seq, Finset.mem_insert_self .., enriched, handled, rfl⟩

theorem step_distinctIds {event : Event} (distinct : DistinctIds system.store)
    (own : OwnId system event) : DistinctIds (step d system event).store := by
  cases event with
  | write enriched =>
    change DistinctIds (insertItem system.store enriched)
    unfold DistinctIds insertItem
    split
    · exact distinct
    · rename_i absent
      simp only [List.any_eq_true, decide_eq_true_eq, not_exists, not_and] at absent
      rw [List.map_append, List.nodup_append]
      refine ⟨distinct, List.nodup_singleton _, ?_⟩
      intro id old other new same
      obtain ⟨row, member, rfl⟩ := List.mem_map.mp old
      rw [List.map_singleton, List.mem_singleton] at new
      exact absent row member (own row member (same.trans new))
  | promote storyId => exact distinct
  | deliver seq attempt =>
    cases handled : d.item seq with
    | none =>
      rw [step_dropped handled]
      exact distinct
    | some enriched =>
      obtain ⟨result, final, _, leaves, next⟩ :=
        step_handled system attempt handled
      rw [next, DistinctIds, System.settle_store]
      rcases leaves_items leaves with ⟨rfl, _⟩ | ⟨_, _, items⟩
      · exact distinct
      · rw [items, ids_assigned]
        exact distinct

/-- A stream of the given reports. -/
def streamOf (reports : List EnrichedItem) : Deployment where
  py := .plain
  pg := plainPostgres
  stream seq := { subject := "enriched.sample", size := 1024, payload := reports[seq]? }

/-- Two reports about one place. -/
def twoReports : Deployment :=
  streamOf [report 1 "ann" "mastodon" .social, report 2 "bob" "bluesky" .social]

end NewsAggregator.Cluster
