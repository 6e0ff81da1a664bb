import NewsAggregator.Foundation.Run
import NewsAggregator.Score.Scorer

/-! Alerts over whole runs of one score worker, while others change the tables
between its statements. -/

namespace NewsAggregator.Score

open Foundation Notify

/-- An inserted row and what its cycle had read. -/
structure Raised where
  alert : Alert
  reads : Reads

structure Worker where
  db : Tables
  running : Program ScoreStmt Unit := .done ()
  reads : Reads := {}
  raised : List Raised := []

/-- Others change the tables or time goes by; the worker starts a cycle, makes its next
statement, or gives the cycle up. -/
inductive WorkerEvent where
  | change (db : Tables)
  | start (now : Int)
  | advance
  | abort

namespace Worker

/-- A cycle starts when none is running. -/
def start (cfg : Config) (py : Python) (worker : Worker) (now : Int) : Worker :=
  match worker.running with
  | .call _ _ => worker
  | _ => { worker with running := cycle cfg py now, reads := ⟨now, none, []⟩ }

/-- One statement; the rows it appends to `alerts` are the raised ones. -/
def advance (cfg : Config) (worker : Worker) : Worker :=
  match worker.running with
  | .call stmt next =>
    let (answer, db) := exec _ stmt worker.db
    let inserted := db.alerts.drop worker.db.alerts.length
    { db
      running := next answer
      reads := (gating cfg).observe worker.reads _ stmt answer
      raised := worker.raised ++ inserted.map fun alert => ⟨alert, worker.reads⟩ }
  | _ => worker

def step (cfg : Config) (py : Python) (worker : Worker) : WorkerEvent → Worker
  | .change db => { worker with db }
  | .start now => worker.start cfg py now
  | .advance => worker.advance cfg
  | .abort => { worker with running := .raise }

/-- The clock does not go back, nobody else inserts alerts, and none is dropped within
its cooldown. -/
def Permitted (cfg : Config) (worker : Worker) : WorkerEvent → Prop
  | .change db => worker.db.clock ≤ db.clock ∧ db.alerts.Sublist worker.db.alerts ∧
      ∀ alert ∈ worker.db.alerts, db.clock - cfg.alertCooldown < alert.ts → alert ∈ db.alerts
  | _ => True

/-- Every inserted alert is warranted by the reads of its cycle, and a Story's alerts
lie a cooldown apart, also from those that were there before. -/
structure Gated (cfg : Config) (initial : List Alert) (worker : Worker) : Prop where
  warranted : ∀ entry ∈ worker.raised,
    Warranted cfg entry.reads entry.alert.storyId entry.alert.gap entry.alert.trustState
  spaced : worker.raised.Pairwise fun first second =>
    first.alert.storyId = second.alert.storyId →
      first.alert.ts + cfg.alertCooldown ≤ second.alert.ts
  spacedInitial : ∀ old ∈ initial, ∀ entry ∈ worker.raised,
    old.storyId = entry.alert.storyId → old.ts + cfg.alertCooldown ≤ entry.alert.ts
  stored : ∀ alert ∈ worker.db.alerts,
    alert ∈ initial ∨ ∃ entry ∈ worker.raised, entry.alert = alert

/-- What a worker keeps between its steps: its program obeys its reads, and an alert
that is gone was older than the cooldown. -/
structure Tracked (cfg : Config) (initial : List Alert) (worker : Worker) : Prop where
  gated : worker.Gated cfg initial
  obeys : (gating cfg).Obeys (fun _ _ => True) worker.reads worker.running
  keptInitial : ∀ old ∈ initial,
    old ∈ worker.db.alerts ∨ old.ts + cfg.alertCooldown ≤ worker.db.clock
  keptRaised : ∀ entry ∈ worker.raised,
    entry.alert ∈ worker.db.alerts ∨ entry.alert.ts + cfg.alertCooldown ≤ worker.db.clock

end Worker

section Step

variable {cfg : Config} {py : Python} {initial : List Alert} {worker : Worker}

/-- An allowed statement leaves the alerts alone, or inserts a warranted one whose Story
had none within the cooldown. -/
theorem exec_spec {β : Type} {stmt : ScoreStmt β} {reads : Reads} (db : Tables)
    (allowed : (gating cfg).allows reads β stmt) : (exec β stmt db).2.clock = db.clock ∧
      ((exec β stmt db).2.alerts = db.alerts ∨ ∃ alert : Alert,
        (exec β stmt db).2.alerts = db.alerts ++ [alert] ∧ alert.ts = db.clock ∧
          Warranted cfg reads alert.storyId alert.gap alert.trustState ∧
            ∀ row ∈ db.alerts, row.storyId = alert.storyId →
              row.ts + cfg.alertCooldown ≤ db.clock) := by
  cases stmt with
  | insertAlert storyId gap vz trustState cooldown =>
    obtain ⟨rfl, warranted⟩ := allowed
    simp only [exec, Tables.insertAlert]
    split
    · exact ⟨rfl, .inl rfl⟩
    · rename_i quiet
      split
      · exact ⟨rfl, .inl rfl⟩
      · refine ⟨rfl, .inr ⟨_, rfl, rfl, warranted, fun row member same => ?_⟩⟩
        by_contra recent
        refine quiet (List.any_eq_true.mpr ⟨row, member, decide_eq_true ⟨same, ?_⟩⟩)
        omega
  | _ => exact ⟨rfl, .inl rfl⟩

theorem tracked_idle (db : Tables) : Worker.Tracked cfg db.alerts { db } where
  gated := {
    warranted := by simp
    spaced := List.Pairwise.nil
    spacedInitial := by simp
    stored := fun alert member => .inl member }
  obeys := trivial
  keptInitial := fun old member => .inl member
  keptRaised := by simp

theorem Worker.Tracked.change (tracked : worker.Tracked cfg initial) {db : Tables}
    (permitted : worker.Permitted cfg (.change db)) :
    (worker.step cfg py (.change db)).Tracked cfg initial := by
  obtain ⟨forward, fewer, young⟩ := permitted
  have kept : ∀ alert : Alert,
      alert ∈ worker.db.alerts ∨ alert.ts + cfg.alertCooldown ≤ worker.db.clock →
        alert ∈ db.alerts ∨ alert.ts + cfg.alertCooldown ≤ db.clock := by
    rintro alert (present | old)
    · by_cases within : db.clock - cfg.alertCooldown < alert.ts
      · exact .inl (young alert present within)
      · exact .inr (by omega)
    · exact .inr (by omega)
  obtain ⟨⟨warranted, spaced, spacedInitial, stored⟩, obeys, keptInitial, keptRaised⟩ := tracked
  refine ⟨⟨warranted, spaced, spacedInitial, ?_⟩, obeys, ?_, ?_⟩
  · exact fun alert member => stored alert (fewer.subset member)
  · exact fun old member => kept old (keptInitial old member)
  · exact fun entry member => kept entry.alert (keptRaised entry member)

/-- A step that leaves the alerts and the clock alone. -/
theorem Worker.Tracked.proceed (tracked : worker.Tracked cfg initial) {db : Tables}
    {running : Program ScoreStmt Unit} {reads : Reads} (clock : db.clock = worker.db.clock)
    (same : db.alerts = worker.db.alerts)
    (obeys : (gating cfg).Obeys (fun _ _ => True) reads running) :
    Worker.Tracked cfg initial ⟨db, running, reads, worker.raised⟩ := by
  obtain ⟨⟨warranted, spaced, spacedInitial, stored⟩, _, keptInitial, keptRaised⟩ := tracked
  refine ⟨⟨warranted, spaced, spacedInitial, ?_⟩, obeys, ?_, ?_⟩
  · rwa [same]
  · rwa [same, clock]
  · rwa [same, clock]

/-- An alert appended a cooldown after those of its Story. -/
theorem Worker.Gated.raise (gated : worker.Gated cfg initial) {alert : Alert} {db : Tables}
    {running : Program ScoreStmt Unit} {reads : Reads}
    (appended : db.alerts = worker.db.alerts ++ [alert])
    (why : Warranted cfg worker.reads alert.storyId alert.gap alert.trustState)
    (afterInitial : ∀ old ∈ initial, old.storyId = alert.storyId →
      old.ts + cfg.alertCooldown ≤ alert.ts)
    (afterRaised : ∀ entry ∈ worker.raised, entry.alert.storyId = alert.storyId →
      entry.alert.ts + cfg.alertCooldown ≤ alert.ts) :
    Worker.Gated cfg initial ⟨db, running, reads, worker.raised ++ [⟨alert, worker.reads⟩]⟩ where
  warranted := by
    intro entry member
    rcases List.mem_append.mp member with old | new
    · exact gated.warranted entry old
    · rw [List.mem_singleton.mp new]
      exact why
  spaced := by
    refine List.pairwise_append.mpr ⟨gated.spaced, List.pairwise_singleton _ _, ?_⟩
    intro entry member other new
    rw [List.mem_singleton.mp new]
    exact afterRaised entry member
  spacedInitial := by
    intro old there entry member
    rcases List.mem_append.mp member with before | new
    · exact gated.spacedInitial old there entry before
    · rw [List.mem_singleton.mp new]
      exact afterInitial old there
  stored := by
    intro row member
    rw [appended] at member
    rcases List.mem_append.mp member with old | new
    · rcases gated.stored row old with before | ⟨entry, raised, rfl⟩
      · exact .inl before
      · exact .inr ⟨entry, List.mem_append_left _ raised, rfl⟩
    · rw [List.mem_singleton.mp new]
      exact .inr ⟨_, List.mem_append_right _ List.mem_cons_self, rfl⟩

/-- A warranted alert is appended whose Story had none within the cooldown. -/
theorem Worker.Tracked.raise (tracked : worker.Tracked cfg initial) {alert : Alert} {db : Tables}
    {running : Program ScoreStmt Unit} {reads : Reads} (clock : db.clock = worker.db.clock)
    (appended : db.alerts = worker.db.alerts ++ [alert]) (now : alert.ts = worker.db.clock)
    (why : Warranted cfg worker.reads alert.storyId alert.gap alert.trustState)
    (quiet : ∀ row ∈ worker.db.alerts, row.storyId = alert.storyId →
      row.ts + cfg.alertCooldown ≤ worker.db.clock)
    (obeys : (gating cfg).Obeys (fun _ _ => True) reads running) :
    Worker.Tracked cfg initial ⟨db, running, reads, worker.raised ++ [⟨alert, worker.reads⟩]⟩ := by
  have apart : ∀ other : Alert,
      other ∈ worker.db.alerts ∨ other.ts + cfg.alertCooldown ≤ worker.db.clock →
        other.storyId = alert.storyId → other.ts + cfg.alertCooldown ≤ alert.ts := by
    rintro other (present | old) story
    · rw [now]
      exact quiet other present story
    · rwa [now]
  have kept : ∀ other : Alert,
      other ∈ worker.db.alerts ∨ other.ts + cfg.alertCooldown ≤ worker.db.clock →
        other ∈ db.alerts ∨ other.ts + cfg.alertCooldown ≤ db.clock := by
    rintro other (present | old)
    · exact .inl (appended ▸ List.mem_append_left _ present)
    · exact .inr (clock ▸ old)
  have landed : alert ∈ db.alerts := by
    rw [appended]
    exact List.mem_append_right _ List.mem_cons_self
  refine ⟨tracked.gated.raise appended why ?_ ?_, obeys, ?_, ?_⟩
  · exact fun old there => apart old (tracked.keptInitial old there)
  · exact fun entry member => apart entry.alert (tracked.keptRaised entry member)
  · exact fun old there => kept old (tracked.keptInitial old there)
  · intro entry member
    rcases List.mem_append.mp member with old | new
    · exact kept entry.alert (tracked.keptRaised entry old)
    · rw [List.mem_singleton.mp new]
      exact .inl landed

theorem Worker.Tracked.start (tracked : worker.Tracked cfg initial) (now : Int) :
    (worker.start cfg py now).Tracked cfg initial := by
  rw [Worker.start]
  split
  · exact tracked
  · exact tracked.proceed rfl rfl (obeys_cycle cfg py now)

theorem Worker.Tracked.advance (tracked : worker.Tracked cfg initial) :
    (worker.advance cfg).Tracked cfg initial := by
  rw [Worker.advance]
  split
  · rename_i β stmt next current
    have obeys := tracked.obeys
    rw [current] at obeys
    have following := obeys.2 (exec _ stmt worker.db).1
    obtain ⟨clock, same | ⟨alert, appended, now, why, quiet⟩⟩ := exec_spec worker.db obeys.1
    · have none : (exec _ stmt worker.db).2.alerts.drop worker.db.alerts.length = [] := by
        rw [same, List.drop_length]
      simp only [none, List.map_nil, List.append_nil]
      exact tracked.proceed clock same following
    · have one : (exec _ stmt worker.db).2.alerts.drop worker.db.alerts.length = [alert] := by
        rw [appended, List.drop_left]
      simp only [one, List.map_singleton]
      exact tracked.raise clock appended now why quiet following
  · exact tracked

theorem Worker.Tracked.step (tracked : worker.Tracked cfg initial) {event : WorkerEvent}
    (permitted : worker.Permitted cfg event) : (worker.step cfg py event).Tracked cfg initial := by
  cases event with
  | change db => exact tracked.change permitted
  | start now => exact tracked.start now
  | advance => exact tracked.advance
  | abort => exact tracked.proceed rfl rfl trivial

end Step

/-- Whatever happens to the tables during and between the cycles, alerts are gated. -/
theorem alerts_gated {cfg : Config} {py : Python} {db : Tables} {events : List WorkerEvent}
    (permitted : Along (Worker.step cfg py) (Worker.Permitted cfg) { db } events) :
    (run (Worker.step cfg py) { db } events).Gated cfg db.alerts :=
  (permitted.invariant (Worker.Tracked cfg db.alerts) (tracked_idle db)
    fun _ _ tracked allowed => tracked.step allowed).gated

/-- A corroborated Story whose mentions burst out of thirteen silent hours. -/
def burstTables : Tables where
  clock := 1700000100000000
  stories := [{
    id := 1, firstSeen := 1700000100000000, lastSeen := 1700000100000000, entitySet := {"fire"}
    sourceSet := {"usgs"}, independentOrigins := 3, trustState := .corroborated
    centroid := none }]
  entityTallies := [⟨"rain", 1699953300000000, "", 1⟩, ⟨"fire", 1700000100000000, "", 500⟩]

def emptyTables : Tables := { clock := 0 }

/-- The tables fill up, and two cycles run over them. -/
def burstEvents : List WorkerEvent :=
  .change burstTables :: .start 1700000100000000 :: List.replicate 10 .advance ++
    .start 1700000160000000 :: List.replicate 10 .advance

/-- The first cycle raises an alert, the second one is within its cooldown. -/
theorem alerts_gated_burst :
    (run (Worker.step {} .plain) { db := emptyTables } burstEvents).raised.length = 1 ∧
      (run (Worker.step {} .plain) { db := emptyTables } burstEvents).Gated {}
        emptyTables.alerts := by
  refine ⟨by decide +kernel, alerts_gated ?_⟩
  have none : ∀ alert : Alert, alert ∉ emptyTables.alerts := fun _ => List.not_mem_nil
  refine ⟨⟨by decide, List.Sublist.refl _, fun alert old => absurd old (none alert)⟩,
    along_of_mem ?_⟩
  intro event member worker
  cases event with
  | change db => simp at member
  | _ => trivial

end NewsAggregator.Score
