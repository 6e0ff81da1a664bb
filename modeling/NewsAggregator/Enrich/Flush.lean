import Mathlib.Algebra.Field.Rat
import Mathlib.Algebra.Order.Ring.Unbundled.Rat
import Mathlib.Data.Finset.Insert
import NewsAggregator.Bus.Client
import NewsAggregator.Enrich.Db
import NewsAggregator.Enrich.Filter
import NewsAggregator.Enrich.Governor
import NewsAggregator.Foundation.Run

/-! The tally of one replica, from the items it sees over the flush loop and the
TALLY stream into the database. -/

namespace NewsAggregator.Enrich

open Foundation Bus

variable {K : Type} [Field K] [LinearOrder K]

/-- One replica, under its `HOSTNAME`. -/
structure TallyReplica (K : Type) [Field K] [LinearOrder K] where
  py : Python
  gazetteer : Gazetteer
  replica : String
  pub : ScopedPublisher := { allowedPrefix := "tally.", maxMsgBytes := 65536 }
  /-- Bytes of `model_dump_json`. -/
  jsonSize : TallyFlush K → ℕ

/-- A window drained at a time, and the governor as it stood. -/
structure Window (K : Type) [Field K] where
  now : Int
  gov : AdmissionGovernor K
  counts : Counter String

/-- The mentions of the open window, whether the flush loop still runs, the windows
drained and the flushes published. -/
structure TallyState (K : Type) [Field K] [LinearOrder K] where
  mentions : Counter String := .empty
  flushing : Bool := true
  windows : List (Window K) := []
  flushes : List (TallyFlush K) := []

/-- `now.replace(second=0, microsecond=0)`. -/
def minute (now : Int) : Int := now - now % 60000000

/-- The flush built of a drained window; `none` where the schema rejects it. -/
def flushOf (d : TallyReplica K) (window : Window K) : Option (TallyFlush K) :=
  let counts := if maxTallyEntities < window.counts.entries.length then
    window.counts.mostCommon maxTallyEntities else window.counts
  TallyFlush.validate (minute window.now) counts window.gov.samplingActive window.gov.theta
    d.replica window.now

/-- One turn of `flush_tallies`. A failed publish is logged; a rejected flush ends
the loop. -/
def flushTallies (d : TallyReplica K) (now : Int) (gov : AdmissionGovernor K) (sent : Bool)
    (state : TallyState K) : TallyState K :=
  if !state.flushing then state
  else
    let (counts, mentions) := drainMentions state.mentions
    let window : Window K := ⟨now, gov, counts⟩
    let windows := state.windows ++ [window]
    match flushOf d window with
    | none => { state with mentions, windows, flushing := false }
    | some flush =>
      if d.pub.publish "tally.minute" (d.jsonSize flush) sent then
        { state with mentions, windows, flushes := state.flushes ++ [flush] }
      else { state with mentions, windows }

/-- A turn of a running loop whose publish succeeds drains the window and adds its flush. -/
theorem flushTallies_running {d : TallyReplica K} {now : Int} {gov : AdmissionGovernor K}
    {sent : Bool} {state : TallyState K} (running : state.flushing = true)
    (published : ∀ flush ∈ flushOf d ⟨now, gov, state.mentions⟩,
      d.pub.publish "tally.minute" (d.jsonSize flush) sent) :
    (flushTallies d now gov sent state).windows = state.windows ++ [⟨now, gov, state.mentions⟩] ∧
      (flushTallies d now gov sent state).flushes =
        state.flushes ++ (flushOf d ⟨now, gov, state.mentions⟩).toList := by
  rw [flushTallies]
  simp only [running, drainMentions]
  cases built : flushOf d ⟨now, gov, state.mentions⟩ with
  | none => simp
  | some flush => simp [published flush built]

structure TallySystem (K : Type) [Field K] [LinearOrder K] where
  replica : TallyState K := {}
  db : TallyStore K := {}
  handled : Finset ℕ := ∅

/-- An item is tallied, the flush loop wakes up, the process starts anew under its
name, or a flush is delivered to the writer, whose database may fail. -/
inductive TallyEvent (K : Type) [Field K] where
  | tally (item : Item)
  | wake (now : Int) (gov : AdmissionGovernor K) (sent : Bool)
  | restart
  | deliver (index : ℕ) (cut : Option ℕ)

def tallyStep (d : TallyReplica K) (system : TallySystem K) : TallyEvent K → TallySystem K
  | .tally item =>
    match tally d.py d.gazetteer item system.replica.mentions with
    | none => system
    | some (_, mentions) => { system with replica := { system.replica with mentions } }
  | .wake now gov sent => { system with replica := flushTallies d now gov sent system.replica }
  | .restart =>
    { system with replica := { system.replica with mentions := .empty, flushing := true } }
  | .deliver index cut =>
    match system.replica.flushes[index]? with
    | none => system
    | some flush =>
      let (reply, db) := consumeValidated d.pub.maxMsgBytes
        (fun flush => Program.execute tallyExec cut (handleTally flush))
        ⟨"tally.minute", d.jsonSize flush, some flush⟩ system.db
      { system with
        db
        handled := if reply = .ack then insert index system.handled else system.handled }

/-- A delivery inserts the rows of its flush, or fails before and is not handled. -/
theorem tallyStep_deliver (d : TallyReplica K) (cut : Option ℕ) {system : TallySystem K}
    {index : ℕ} {flush : TallyFlush K} (stored : system.replica.flushes[index]? = some flush) :
    ∃ db handled, tallyStep d system (.deliver index cut) = { system with db, handled } ∧
      handled ⊆ insert index system.handled ∧
      ((db.entityTallies = system.db.entityTallies ∧ handled = system.handled) ∨
        db.entityTallies = (insertTallies system.db flush).entityTallies) := by
  let handler flush := Program.execute tallyExec cut (handleTally (K := K) flush)
  let msg : Message (TallyFlush K) := ⟨"tally.minute", d.jsonSize flush, some flush⟩
  have unfolded : tallyStep d system (.deliver index cut) = { system with
      db := (consumeValidated d.pub.maxMsgBytes handler msg system.db).2
      handled := if (consumeValidated d.pub.maxMsgBytes handler msg system.db).1 = .ack then
        insert index system.handled else system.handled } := by
    simp only [tallyStep, stored]
    rfl
  refine ⟨_, _, unfolded, ?_, ?_⟩
  · split
    · exact Finset.Subset.refl _
    · exact Finset.subset_insert _ _
  · cases seen : accepted d.pub.maxMsgBytes msg with
    | none =>
      rw [consumeValidated_dropped _ _ seen]
      exact .inl ⟨rfl, rfl⟩
    | some parsed =>
      have same : parsed = flush := by
        unfold accepted at seen
        split at seen
        · cases seen
        · exact (Option.some.inj seen).symm
      subst same
      rw [consumeValidated_accepted _ _ seen]
      have yields := Program.execute_yields tallyExec cut (handleTally parsed) system.db
      rcases handleTally_yields yields with ⟨unchanged, raised⟩ | inserted
      · refine .inl ⟨congrArg TallyStore.entityTallies unchanged, ?_⟩
        rw [show (handler parsed system.db).1 = none from raised]
        rfl
      · exact .inr inserted

end NewsAggregator.Enrich
