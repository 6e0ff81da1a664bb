import NewsAggregator.Ingest.Sink

/-! The loop over the firehose: it reconnects with the time of the last event it received,
and the server plays back from there. -/

namespace NewsAggregator.Ingest.Bluesky

open Foundation

/-- `evt["time_us"]`, where the event is an object that has an integer there. -/
def timeUs (evt : PyValue) : Option ℤ :=
  match evt.get "time_us" with
  | .int n => some n
  | .bool b => some (if b then 1 else 0)
  | _ => none

/-- The time of an event that has one. -/
def stamp (evt : PyValue) : ℤ := (timeUs evt).getD 0

/-- What the server sends, each event at a time of its own. -/
structure Firehose where
  events : List PyValue
  stamped : ∀ evt ∈ events, (timeUs evt).isSome
  increasing : events.Pairwise fun earlier later => stamp earlier < stamp later

/-- What is played back: all from the cursor on, and so many events before it; without a
cursor, what follows so many events. -/
def Firehose.playback (firehose : Firehose) (cursor : Option ℤ) (back : ℕ) : List PyValue :=
  match cursor with
  | none => firehose.events.drop back
  | some cursor =>
    let older := firehose.events.takeWhile fun evt => stamp evt < cursor
    firehose.events.drop (older.length - back)

/-- Where the loop waits: for the time to reconnect or for the next event; or it has ended. -/
inductive Phase where
  | waiting
  | streaming (rest : List PyValue)
  | stopped

/-- The variables of `run`; `first` is the time of the first event it received. -/
structure Loop where
  cursor : Option ℤ := none
  sink : Sink := {}
  first : Option ℤ := none
  phase : Phase := .waiting

/-- What ends a wait: a connection; an event, or a text that is no JSON; the connection
drops or is silent for too long; or `stop` is set. -/
inductive LoopEvent where
  | connect (back : ℕ)
  | receive (fresh : Fresh) (sends : Bool)
  | garbage
  | drop
  | stop

section Code

variable (rt : Runtime) (langs : List PyStr) (firehose : Firehose)

namespace Loop

def connect (loop : Loop) (back : ℕ) : Loop :=
  match loop.phase with
  | .waiting => { loop with phase := .streaming (firehose.playback loop.cursor back) }
  | _ => loop

/-- The body of the loop: the cursor moves before the event is looked at. -/
def receive (loop : Loop) (fresh : Fresh) (sends : Bool) : Loop :=
  match loop.phase with
  | .streaming (evt :: rest) =>
    let (sink, ended) := loop.sink.emit ((Feed.bluesky langs).path rt fresh evt) sends
    { cursor := (timeUs evt).or loop.cursor
      sink
      first := loop.first.or (timeUs evt)
      phase := if ended then .streaming rest else .waiting }
  | _ => loop

def step (loop : Loop) : LoopEvent → Loop
  | .connect back => loop.connect firehose back
  | .receive fresh sends => loop.receive rt langs fresh sends
  | .garbage => loop
  | .drop =>
    match loop.phase with
    | .streaming _ => { loop with phase := .waiting }
    | _ => loop
  | .stop => { loop with phase := .stopped }

end Loop

/-- The event is not older than the first one received. -/
def Loop.Heard (loop : Loop) (evt : PyValue) : Prop := ∃ first ∈ loop.first, first ≤ stamp evt

/-- The event is older than the cursor. -/
def Loop.Behind (loop : Loop) (evt : PyValue) : Prop := ∃ cursor ∈ loop.cursor, stamp evt < cursor

/-- The event raised nothing, and what it carries was published. -/
def Loop.Settled (loop : Loop) (evt : PyValue) : Prop :=
  Tame rt evt langs ∧ Covered rt (.bluesky langs) loop.sink.published [evt]

/-- From the first event received on, all is settled that is older than the cursor. -/
def Gapless (loop : Loop) : Prop :=
  ∀ evt ∈ firehose.events, loop.Heard evt → loop.Behind evt → loop.Settled rt langs evt

end Code

section Step

variable {rt : Runtime} {langs : List PyStr} {firehose : Firehose} {loop : Loop}

/-- What lies before the rest of the connection is settled. -/
def Ahead (rt : Runtime) (langs : List PyStr) (firehose : Firehose) (loop : Loop)
    (rest : List PyValue) : Prop :=
  ∃ before, firehose.events = before ++ rest ∧
    ∀ evt ∈ before, loop.Heard evt → loop.Settled rt langs evt

structure Placed (rt : Runtime) (langs : List PyStr) (firehose : Firehose) (loop : Loop) : Prop
    where
  sound : loop.sink.Sound
  marked : loop.first.isSome → loop.cursor.isSome
  gapless : Gapless rt langs firehose loop
  ahead : ∀ rest, loop.phase = .streaming rest → Ahead rt langs firehose loop rest

/-- What is left out of a playback is older than the cursor. -/
theorem older_of_mem {cursor : ℤ} {back : ℕ} {evt : PyValue}
    (member : evt ∈ firehose.events.take
      ((firehose.events.takeWhile fun evt => stamp evt < cursor).length - back)) :
    stamp evt < cursor := by
  have whole := List.prefix_iff_eq_take.mp
    (List.takeWhile_prefix (fun evt : PyValue => decide (stamp evt < cursor))
      (l := firehose.events))
  have older := List.take_subset_take_left firehose.events (Nat.sub_le _ back) member
  rw [← whole] at older
  simpa using List.mem_takeWhile_imp older

theorem Placed.connect (placed : Placed rt langs firehose loop) (back : ℕ) :
    Placed rt langs firehose (loop.connect firehose back) := by
  obtain ⟨cursor, sink, first, phase⟩ := loop
  cases phase with
  | waiting =>
    refine ⟨placed.sound, placed.marked, placed.gapless, ?_⟩
    rintro _ ⟨⟩
    cases cursor with
    | none =>
      refine ⟨firehose.events.take back, (List.take_append_drop _ _).symm, ?_⟩
      rintro evt _ ⟨time, received, _⟩
      have marked := placed.marked (Option.isSome_of_mem received)
      cases marked
    | some cursor =>
      refine ⟨_, (List.take_append_drop _ _).symm, fun evt member heard => ?_⟩
      exact placed.gapless evt (List.mem_of_mem_take member) heard
        ⟨cursor, rfl, older_of_mem member⟩
  | streaming rest => exact placed
  | stopped => exact placed

/-- What the next event makes of the loop. -/
theorem receive_next (rt : Runtime) (langs : List PyStr) {evt : PyValue} {rest : List PyValue}
    (fresh : Fresh) (sends : Bool)
    (current : loop.phase = .streaming (evt :: rest)) (stamped : (timeUs evt).isSome) :
    let result := loop.sink.emit ((Feed.bluesky langs).path rt fresh evt) sends
    loop.receive rt langs fresh sends = {
      cursor := some (stamp evt)
      sink := result.1
      first := some (loop.first.getD (stamp evt))
      phase := if result.2 then .streaming rest else .waiting } := by
  obtain ⟨time, known⟩ := Option.isSome_iff_exists.mp stamped
  cases first : loop.first <;>
    simp only [Loop.receive, current, stamp, known, first, Option.or, Option.getD]

/-- The events are in the order of their times. -/
theorem stamp_lt {before rest : List PyValue} {evt other : PyValue}
    (whole : firehose.events = before ++ evt :: rest) (member : other ∈ firehose.events) :
    other ∈ before ↔ stamp other < stamp evt := by
  have ordered := firehose.increasing
  rw [whole] at ordered member
  obtain ⟨_, later, apart⟩ := List.pairwise_append.mp ordered
  constructor
  · exact fun early => apart other early evt List.mem_cons_self
  · intro older
    rcases List.mem_append.mp member with early | late
    · exact early
    · rcases List.mem_cons.mp late with rfl | after
      · exact absurd older (lt_irrefl _)
      · have newer := (List.pairwise_cons.mp later).1 other after
        omega

theorem lt_stamp {before rest : List PyValue} {evt other : PyValue}
    (whole : firehose.events = before ++ evt :: rest) (after : other ∈ rest) :
    stamp evt < stamp other := by
  have ordered := firehose.increasing
  rw [whole] at ordered
  exact (List.pairwise_cons.mp (List.pairwise_append.mp ordered).2.1).1 other after

theorem Loop.Settled.mono {evt : PyValue} {later : Loop} (settled : loop.Settled rt langs evt)
    (grows : loop.sink.published ⊆ later.sink.published) : later.Settled rt langs evt :=
  ⟨settled.1, settled.2.mono grows⟩

theorem Placed.receive (placed : Placed rt langs firehose loop) (fresh : Fresh) (sends : Bool) :
    Placed rt langs firehose (loop.receive rt langs fresh sends) := by
  cases current : loop.phase with
  | waiting => rwa [Loop.receive, current]
  | stopped => rwa [Loop.receive, current]
  | streaming rest =>
    cases rest with
    | nil => rwa [Loop.receive, current]
    | cons evt rest =>
      obtain ⟨before, whole, settled⟩ := placed.ahead _ current
      have member : evt ∈ firehose.events := by simp [whole]
      have next := receive_next rt langs fresh sends current (firehose.stamped evt member)
      have handled := emit_handled (steady_bluesky rt langs) placed.sound fresh evt sends
      have tame : (loop.sink.emit ((Feed.bluesky langs).path rt fresh evt) sends).2 = true →
          Tame rt evt langs := tame_of_emit
      generalize loop.sink.emit _ sends = result at next handled tame
      rw [next]
      -- what was heard before the event is settled
      have earlier : ∀ other ∈ before, loop.first.getD (stamp evt) ≤ stamp other →
          loop.Settled rt langs other := by
        intro other early heard
        have older := (stamp_lt whole (by simp [whole, early])).mp early
        cases first : loop.first with
        | none =>
          rw [first, Option.getD_none] at heard
          omega
        | some time =>
          rw [first, Option.getD_some] at heard
          exact settled other early ⟨time, first, heard⟩
      refine ⟨handled.sound, fun _ => rfl, ?_, ?_⟩
      · rintro other listed ⟨_, ⟨⟩, heard⟩ ⟨_, ⟨⟩, older⟩
        exact (earlier other ((stamp_lt whole listed).mpr older) heard).mono handled.grows
      · intro left phase
        cases ended : result.2 with
        | false =>
          rw [ended] at phase
          cases phase
        | true =>
          rw [ended] at phase
          cases phase
          refine ⟨before ++ [evt], by rw [whole, List.append_assoc]; rfl, ?_⟩
          rintro other listed ⟨_, ⟨⟩, heard⟩
          rcases List.mem_append.mp listed with early | own
          · exact (earlier other early heard).mono handled.grows
          · rw [List.mem_singleton.mp own]
            exact ⟨tame ended, handled.covers ended⟩

theorem Placed.step (placed : Placed rt langs firehose loop) (event : LoopEvent) :
    Placed rt langs firehose (loop.step rt langs firehose event) := by
  cases event with
  | connect back => exact placed.connect back
  | receive fresh sends => exact placed.receive fresh sends
  | garbage => exact placed
  | drop =>
    cases current : loop.phase with
    | waiting => rwa [Loop.step, current]
    | stopped => rwa [Loop.step, current]
    | streaming rest =>
      rw [Loop.step, current]
      exact ⟨placed.sound, placed.marked, placed.gapless, nofun⟩
  | stop => exact ⟨placed.sound, placed.marked, placed.gapless, nofun⟩

theorem placed_start : Placed rt langs firehose {} :=
  ⟨Sink.sound_start, nofun, by rintro _ _ ⟨_, ⟨⟩, _⟩, nofun⟩

end Step

/-- At every moment, all that is older than the cursor, from the first event received on,
is settled; and no hash is published while it is among the last ones. -/
theorem firehose_gapless (rt : Runtime) (langs : List PyStr) (firehose : Firehose)
    (events : List LoopEvent) :
    Always (Loop.step rt langs firehose) (Gapless rt langs firehose) {} events ∧
      Always (Loop.step rt langs firehose) (fun loop => Spaced loop.sink.published) {} events := by
  have along : Along (Loop.step rt langs firehose) (fun _ _ => True) {} events :=
    along_of_forall fun _ _ => trivial
  have always := along.always (Placed rt langs firehose) placed_start
    fun _ event placed _ => placed.step event
  exact ⟨fun before initial => (always before initial).gapless,
    fun before initial => (always before initial).sound.spaced⟩

section Reach

variable {rt : Runtime} {langs : List PyStr} {firehose : Firehose}

/-- A connection on which the events return and go out takes the cursor along. -/
theorem reaches_next {loop : Loop} {first : ℤ} {passed rest : List PyValue} {target : PyValue}
    (received : loop.first = some first)
    (current : loop.phase = .streaming (passed ++ target :: rest))
    (stamped : ∀ evt ∈ passed ++ target :: rest, (timeUs evt).isSome)
    (tame : ∀ evt ∈ passed, Tame rt evt langs) :
    ∃ events, (run (Loop.step rt langs firehose) loop events).first = some first ∧
      (run (Loop.step rt langs firehose) loop events).cursor = some (stamp target) := by
  have fresh : Fresh := ⟨0, ⟨0, 0⟩, ⟨0, 0⟩⟩
  induction passed generalizing loop with
  | nil =>
    have next := receive_next rt langs fresh true current (stamped target List.mem_cons_self)
    refine ⟨[.receive fresh true], ?_⟩
    rw [run_cons, run_nil, Loop.step, next, received]
    exact ⟨rfl, rfl⟩
  | cons evt passed ih =>
    have next := receive_next rt langs fresh true current (stamped evt List.mem_cons_self)
    have ended : (loop.sink.emit ((Feed.bluesky langs).path rt fresh evt) true).2 = true :=
      emit_ends loop.sink (tame evt List.mem_cons_self)
    obtain ⟨events, reached⟩ := @ih (loop.receive rt langs fresh true)
      (by rw [next, received]; rfl) (by rw [next, ended]; rfl)
      (fun other member => stamped other (List.mem_cons_of_mem _ member))
      fun other member => tame other (List.mem_cons_of_mem _ member)
    exact ⟨.receive fresh true :: events, reached⟩

/-- A later event follows in the firehose, and what stands between is what was stamped between. -/
theorem between_tame {start target : PyValue} {before rest : List PyValue}
    (whole : firehose.events = before ++ start :: rest) (listed : target ∈ firehose.events)
    (later : stamp start < stamp target)
    (tame : ∀ evt ∈ firehose.events, stamp start ≤ stamp evt → stamp evt < stamp target →
      Tame rt evt langs) :
    ∃ passed tail, rest = passed ++ target :: tail ∧
      ∀ evt ∈ start :: passed, Tame rt evt langs := by
  have after : target ∈ rest := by
    have place := whole ▸ listed
    rcases List.mem_append.mp place with early | late
    · exact absurd ((stamp_lt whole listed).mp early) later.not_gt
    · rcases List.mem_cons.mp late with rfl | after
      · exact absurd later (lt_irrefl _)
      · exact after
  obtain ⟨passed, tail, rfl⟩ := List.append_of_mem after
  have split : firehose.events = (before ++ start :: passed) ++ target :: tail := by
    rw [whole, List.append_assoc]
    rfl
  refine ⟨passed, tail, rfl, fun evt member => ?_⟩
  have early : evt ∈ before ++ start :: passed := List.mem_append_right _ member
  have inside : evt ∈ firehose.events := split ▸ List.mem_append_left _ early
  refine tame evt inside ?_ ((stamp_lt split inside).mp early)
  rcases List.mem_cons.mp member with rfl | after
  · exact le_rfl
  · exact (lt_stamp whole (List.mem_append_left _ after)).le

end Reach

/-- A commit that is no object, and the event after it. -/
def brokenCommit : PyValue := .dict [(PyStr.of "time_us", .int 1),
  (PyStr.of "kind", .str (PyStr.of "commit")), (PyStr.of "commit", .int 5)]

def nextEvent : PyValue := .dict [(PyStr.of "time_us", .int 2)]

def blocked : Firehose where
  events := [brokenCommit, nextEvent]
  stamped := by decide +kernel
  increasing := by decide +kernel

end NewsAggregator.Ingest.Bluesky
