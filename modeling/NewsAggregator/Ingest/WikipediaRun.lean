import NewsAggregator.Foundation.Resume
import NewsAggregator.Foundation.Run
import NewsAggregator.Ingest.Wikipedia

/-! The run loop over the recent changes: it reconnects with the id of the last event
it was handed, while events pass, connections drop and publishes fail. -/

namespace NewsAggregator.Ingest.Wikipedia

open Foundation

def seenCap : ℕ := 10000

/-- A message of the stream; `data` is what `json.loads` makes of it, `null` where it
raises. -/
structure SseEvent where
  id : String
  data : PyValue

/-- The settings of the environment. -/
structure Config where
  domains : List PyStr := [PyStr.of "en.wikipedia.org"]
  skipMinor : Bool := false

/-- What the server sends; an event without an id has the empty one. -/
structure Feed where
  events : List SseEvent
  distinct : (events.map SseEvent.id).Nodup

/-- Where the loop waits: for the time to reconnect, for the next event of a
connection, or for the publish of an item; or it has ended. -/
inductive Phase where
  | waiting
  | streaming (rest : List SseEvent)
  | publishing (eventId : String) (item : Item) (rest : List SseEvent)
  | stopped

/-- The variables of `run`; `published` are the hashes that were published. -/
structure Loop where
  lastId : Option String := none
  seen : List String := []
  published : List String := []
  phase : Phase := .waiting

/-- What ends a wait; `stopping` tells whether `stop` is set when the next event comes. -/
inductive LoopEvent where
  | connect
  | next (fresh : Fresh) (stopping : Bool)
  | drop
  | published (ok : Bool)
  | stop

section Code

variable (rt : Runtime) (cfg : Config)

/-- The item the loop makes of an event, if it keeps it. -/
def itemOf (fresh : Fresh) (evt : PyValue) : Except PyError (Option Emitted) := do
  if ← shouldKeep cfg.domains cfg.skipMinor evt then normalize rt fresh evt
  else return none

/-- `_remember`. -/
def remember (seen : List String) (key : String) : List String :=
  let seen := if key ∈ seen then seen else seen ++ [key]
  seen.drop (seen.length - seenCap)

/-- An event without an id leaves the last id as it is. -/
def moveTo (lastId : Option String) (eventId : String) : Option String :=
  if eventId = "" then lastId else some eventId

namespace Loop

/-- `sse_events` asks for what comes after the last id. -/
def connect (feed : Feed) (loop : Loop) : Loop :=
  match loop.phase with
  | .waiting => { loop with phase := .streaming (afterMark SseEvent.id loop.lastId feed.events) }
  | _ => loop

/-- The body of the loop, up to the publish. -/
def handle (loop : Loop) (eventId : String) (made : Except PyError (Option Emitted))
    (rest : List SseEvent) : Loop :=
  match made with
  | .error _ => { loop with phase := .waiting }
  | .ok none => { loop with phase := .streaming rest }
  | .ok (some emitted) =>
    if emitted.item.contentHash ∈ loop.seen then { loop with phase := .streaming rest }
    else { loop with phase := .publishing eventId emitted.item rest }

/-- The next event of the connection; only objects are yielded. -/
def next (loop : Loop) (fresh : Fresh) (stopping : Bool) : Loop :=
  match loop.phase with
  | .streaming (event :: rest) =>
    if event.data.isDict then
      let moved := { loop with lastId := moveTo loop.lastId event.id }
      if stopping then { moved with phase := .stopped }
      else moved.handle event.id (itemOf rt cfg fresh event.data) rest
    else { loop with phase := .streaming rest }
  | _ => loop

/-- `publish` returns or raises. -/
def settle (loop : Loop) (ok : Bool) : Loop :=
  match loop.phase with
  | .publishing _ item rest =>
    if ok then
      { loop with
        seen := remember loop.seen item.contentHash
        published := loop.published ++ [item.contentHash]
        phase := .streaming rest }
    else { loop with phase := .waiting }
  | _ => loop

def step (feed : Feed) (loop : Loop) : LoopEvent → Loop
  | .connect => loop.connect feed
  | .next fresh stopping => loop.next rt cfg fresh stopping
  | .drop =>
    match loop.phase with
    | .streaming _ => { loop with phase := .waiting }
    | _ => loop
  | .published ok => loop.settle ok
  | .stop =>
    match loop.phase with
    | .waiting => { loop with phase := .stopped }
    | _ => loop

end Loop

/-- The event passes `should_keep` and normalizes to an item with this hash. -/
def Carries (event : SseEvent) (hash : String) : Prop :=
  ∃ fresh emitted, itemOf rt cfg fresh event.data = .ok (some emitted) ∧
    emitted.item.contentHash = hash

/-- The hashes of these events were published. -/
def Covered (published : List String) (events : List SseEvent) : Prop :=
  ∀ event ∈ events, ∀ hash, Carries rt cfg event hash → hash ∈ published

/-- Up to the last id nothing is missing. -/
def Gapless (feed : Feed) (loop : Loop) : Prop :=
  Covered rt cfg loop.published (upToMark SseEvent.id loop.lastId feed.events)

/-- Nothing is missing where the loop is about to resume. -/
def AtRest (feed : Feed) (loop : Loop) : Prop :=
  match loop.phase with
  | .waiting => Gapless rt cfg feed loop
  | _ => True

/-- A publish only fails if its hash was published before, or its event has no id. -/
def NoneLost (loop : Loop) : LoopEvent → Prop
  | .published false =>
    match loop.phase with
    | .publishing eventId item _ => eventId ≠ "" → item.contentHash ∈ loop.published
    | _ => True
  | _ => True

/-- The loop is only handed events whose hash was published before, or without an id. -/
def NoneNew (loop : Loop) : LoopEvent → Prop
  | .next _ _ =>
    match loop.phase with
    | .streaming (event :: _) => event.id ≠ "" → Covered rt cfg loop.published [event]
    | _ => True
  | _ => True

end Code

section Item

variable {rt : Runtime} {cfg : Config} {event : SseEvent}

theorem ends_itemOf {fresh : Fresh} {evt : PyValue} {property : Option Emitted → Prop} :
    Ends (itemOf rt cfg fresh evt) property ↔ Decides evt cfg.domains ∧
      if Kept evt cfg.domains cfg.skipMinor then Ends (normalize rt fresh evt) property
      else property none := by
  rw [itemOf, ends_bind, ends_shouldKeep]
  by_cases kept : Kept evt cfg.domains cfg.skipMinor
  · simp [kept]
  · simp [kept]

theorem ends_itemOf_some {fresh : Fresh} {evt : PyValue} {property : Emitted → Prop} :
    Ends (itemOf rt cfg fresh evt) (fun result => ∃ emitted ∈ result, property emitted) ↔
      Decides evt cfg.domains ∧ Kept evt cfg.domains cfg.skipMinor ∧
        (evt.isDict ∧ (evt.get "meta").OrDict ∧ Titled evt ∧ (evt.get "revision").OrDict ∧
          (identity evt).truthy ∧ Clean rt evt) ∧ property ((sized_args rt evt).emitted fresh) := by
  rw [ends_itemOf, ends_normalize]
  by_cases kept : Kept evt cfg.domains cfg.skipMinor
  · by_cases titled : Titled evt
    · by_cases identified : (identity evt).truthy
      · simp [kept, titled, identified, and_assoc]
      · simp [kept, titled, identified]
    · simp [kept, titled]
  · simp [kept]

/-- The hash of an event does not depend on when it is read. -/
theorem carries_iff (fresh : Fresh) {hash : String} : Carries rt cfg event hash ↔
    Ends (itemOf rt cfg fresh event.data) fun result =>
      ∃ emitted ∈ result, emitted.item.contentHash = hash := by
  have any : ∀ first second : Fresh, Ends (itemOf rt cfg first event.data) (fun result =>
      ∃ emitted ∈ result, emitted.item.contentHash = hash) →
        Ends (itemOf rt cfg second event.data) fun result =>
          ∃ emitted ∈ result, emitted.item.contentHash = hash := by
    intro first second ends
    rw [ends_itemOf_some] at ends ⊢
    exact ends
  constructor
  · rintro ⟨other, emitted, made, same⟩
    exact any other fresh ⟨some emitted, made, emitted, rfl, same⟩
  · rintro ⟨result, made, emitted, rfl, same⟩
    exact ⟨fresh, emitted, made, same⟩

theorem carries_of_item {fresh : Fresh} {emitted : Emitted}
    (made : itemOf rt cfg fresh event.data = .ok (some emitted)) {hash : String} :
    Carries rt cfg event hash ↔ hash = emitted.item.contentHash := by
  rw [carries_iff fresh, made]
  simp [eq_comm]

theorem not_carries {fresh : Fresh}
    (none : ∀ emitted, itemOf rt cfg fresh event.data ≠ .ok (some emitted)) {hash : String} :
    ¬ Carries rt cfg event hash := by
  rw [carries_iff fresh]
  rintro ⟨result, made, emitted, rfl, _⟩
  exact none emitted made

/-- Only objects carry a hash. -/
theorem Carries.isDict {hash : String} (carries : Carries rt cfg event hash) :
    event.data.isDict := by
  obtain ⟨fresh, emitted, made, _⟩ := carries
  have ends : Ends (itemOf rt cfg fresh event.data) fun result => ∃ emitted ∈ result, True :=
    ⟨some emitted, made, emitted, rfl, trivial⟩
  exact (ends_itemOf_some.mp ends).2.2.1.1

end Item

section Covered

variable {rt : Runtime} {cfg : Config} {published later : List String}
  {events first second : List SseEvent}

theorem Covered.append : Covered rt cfg published (first ++ second) ↔
    Covered rt cfg published first ∧ Covered rt cfg published second := by
  simp [Covered, or_imp, forall_and]

theorem Covered.mono (covered : Covered rt cfg published events) (grows : published ⊆ later) :
    Covered rt cfg later events :=
  fun event member hash carries => grows (covered event member hash carries)

theorem covered_one {event : SseEvent} : Covered rt cfg published [event] ↔
    ∀ hash, Carries rt cfg event hash → hash ∈ published := by
  simp [Covered]

/-- What is no object carries nothing. -/
theorem covered_of_not_isDict {event : SseEvent} (other : ¬ event.data.isDict) :
    Covered rt cfg published [event] :=
  covered_one.mpr fun _ carries => absurd carries.isDict other

end Covered

section Step

variable {rt : Runtime} {cfg : Config} {feed : Feed} {loop : Loop} {event : SseEvent}
  {rest : List SseEvent} {lastId : Option String} {published : List String}

/-- What the next event makes of the loop: nothing unless it is an object; else the last
id moves to it, and the loop ends, raises, passes over it or publishes its item. -/
inductive Handed (rt : Runtime) (cfg : Config) (loop : Loop) (event : SseEvent)
    (rest : List SseEvent) : Loop → Prop where
  | skipped (other : ¬ event.data.isDict) :
      Handed rt cfg loop event rest { loop with phase := .streaming rest }
  | ended : Handed rt cfg loop event rest
      { loop with lastId := moveTo loop.lastId event.id, phase := .stopped }
  | raised (carries : ∀ hash, ¬ Carries rt cfg event hash) : Handed rt cfg loop event rest
      { loop with lastId := moveTo loop.lastId event.id, phase := .waiting }
  | passed (carries : ∀ hash, Carries rt cfg event hash → hash ∈ loop.seen) :
      Handed rt cfg loop event rest
        { loop with lastId := moveTo loop.lastId event.id, phase := .streaming rest }
  | publishes (item : Item)
      (carries : ∀ hash, Carries rt cfg event hash ↔ hash = item.contentHash) :
      Handed rt cfg loop event rest
        { loop with
          lastId := moveTo loop.lastId event.id, phase := .publishing event.id item rest }

theorem handed_next (rt : Runtime) (cfg : Config) (fresh : Fresh) (stopping : Bool)
    (current : loop.phase = .streaming (event :: rest)) :
    Handed rt cfg loop event rest (loop.next rt cfg fresh stopping) := by
  have next : loop.next rt cfg fresh stopping =
      if event.data.isDict then
        if stopping then
          { loop with lastId := moveTo loop.lastId event.id, phase := .stopped }
        else Loop.handle { loop with lastId := moveTo loop.lastId event.id } event.id
          (itemOf rt cfg fresh event.data) rest
      else { loop with phase := .streaming rest } := by
    simp only [Loop.next, current]
  rw [next]
  split
  · split
    · exact .ended
    · cases made : itemOf rt cfg fresh event.data with
      | error error =>
        exact .raised fun hash => not_carries fun emitted item => nomatch made.symm.trans item
      | ok result =>
        cases result with
        | none =>
          refine .passed fun hash carries => absurd carries ?_
          exact not_carries fun emitted item => nomatch made.symm.trans item
        | some emitted =>
          rw [Loop.handle]
          split
          · rename_i known
            exact .passed fun hash carries => by rwa [(carries_of_item made).mp carries]
          · exact .publishes emitted.item fun hash => carries_of_item made
  · rename_i other
    exact .skipped other

/-- What is left of the connection follows the last id, but for events that are covered. -/
def Ahead (rt : Runtime) (cfg : Config) (feed : Feed) (lastId : Option String)
    (published : List String) (rest : List SseEvent) : Prop :=
  ∃ skipped, afterMark SseEvent.id lastId feed.events = skipped ++ rest ∧
    Covered rt cfg published skipped

/-- The mark moves past what was skipped. -/
theorem Ahead.moves (ahead : Ahead rt cfg feed lastId published (event :: rest)) : ∃ skipped,
    upToMark SseEvent.id (some event.id) feed.events =
        upToMark SseEvent.id lastId feed.events ++ skipped ++ [event] ∧
      afterMark SseEvent.id (some event.id) feed.events = rest ∧
        Covered rt cfg published skipped := by
  obtain ⟨skipped, remaining, covered⟩ := ahead
  obtain ⟨passed, left⟩ := move_mark SseEvent.id feed.distinct remaining
  exact ⟨skipped, passed, left, covered⟩

theorem Ahead.start (left : afterMark SseEvent.id lastId feed.events = rest) :
    Ahead rt cfg feed lastId published rest := by
  refine ⟨[], left, ?_⟩
  simp [Covered]

theorem Ahead.mono {later : List String} (ahead : Ahead rt cfg feed lastId published rest)
    (grows : published ⊆ later) : Ahead rt cfg feed lastId later rest := by
  obtain ⟨skipped, remaining, covered⟩ := ahead
  exact ⟨skipped, remaining, covered.mono grows⟩

theorem Ahead.skip (ahead : Ahead rt cfg feed lastId published (event :: rest))
    (covered : Covered rt cfg published [event]) : Ahead rt cfg feed lastId published rest := by
  obtain ⟨skipped, remaining, before⟩ := ahead
  refine ⟨skipped ++ [event], ?_, Covered.append.mpr ⟨before, covered⟩⟩
  rw [remaining, List.append_assoc]
  rfl

theorem Ahead.pass (ahead : Ahead rt cfg feed lastId published (event :: rest))
    (covered : Covered rt cfg published [event]) :
    Ahead rt cfg feed (moveTo lastId event.id) published rest := by
  by_cases unnamed : event.id = ""
  · rw [moveTo, if_pos unnamed]
    exact ahead.skip covered
  · obtain ⟨skipped, passed, left, _⟩ := ahead.moves
    rw [moveTo, if_neg unnamed]
    exact .start left

/-- Where a phase stands in the feed. -/
def Position (rt : Runtime) (cfg : Config) (feed : Feed) (lastId : Option String)
    (published : List String) : Phase → Prop
  | .streaming rest => Ahead rt cfg feed lastId published rest
  | .publishing eventId item rest => ∃ event : SseEvent,
      (∀ hash, Carries rt cfg event hash ↔ hash = item.contentHash) ∧
        if eventId = "" then Ahead rt cfg feed lastId published (event :: rest)
        else event ∈ upToMark SseEvent.id lastId feed.events ∧
          afterMark SseEvent.id lastId feed.events = rest
  | _ => True

structure Placed (rt : Runtime) (cfg : Config) (feed : Feed) (loop : Loop) : Prop where
  seen : loop.seen ⊆ loop.published
  position : Position rt cfg feed loop.lastId loop.published loop.phase

theorem Placed.ahead (placed : Placed rt cfg feed loop)
    (current : loop.phase = .streaming rest) :
    Ahead rt cfg feed loop.lastId loop.published rest := by
  have position := placed.position
  rwa [current] at position

theorem Placed.handed {after : Loop} (placed : Placed rt cfg feed loop)
    (current : loop.phase = .streaming (event :: rest))
    (handed : Handed rt cfg loop event rest after) : Placed rt cfg feed after := by
  have ahead := placed.ahead current
  cases handed with
  | skipped other => exact ⟨placed.seen, ahead.skip (covered_of_not_isDict other)⟩
  | ended => exact ⟨placed.seen, trivial⟩
  | raised carries => exact ⟨placed.seen, trivial⟩
  | passed carries =>
    have covered := covered_one.mpr fun hash carried => placed.seen (carries hash carried)
    exact ⟨placed.seen, ahead.pass covered⟩
  | publishes item carries =>
    refine ⟨placed.seen, event, carries, ?_⟩
    dsimp only
    split
    · rename_i unnamed
      rwa [moveTo, if_pos unnamed]
    · rename_i named
      obtain ⟨skipped, passed, left, _⟩ := ahead.moves
      rw [moveTo, if_neg named]
      refine ⟨?_, left⟩
      rw [passed]
      exact List.mem_append_right _ List.mem_cons_self

theorem remember_subset {seen : List String} (known : seen ⊆ published) (key : String) :
    remember seen key ⊆ published ++ [key] := by
  intro hash member
  have kept := List.mem_of_mem_drop member
  split at kept
  · exact List.mem_append_left _ (known kept)
  · rcases List.mem_append.mp kept with old | new
    · exact List.mem_append_left _ (known old)
    · exact List.mem_append_right _ new

/-- The connection goes on behind an event whose hash is now published. -/
theorem ahead_published {eventId : String} {item : Item}
    (position : Position rt cfg feed lastId published (.publishing eventId item rest)) :
    Ahead rt cfg feed lastId (published ++ [item.contentHash]) rest := by
  obtain ⟨event, carries, place⟩ := position
  split at place
  · refine (place.mono (List.subset_append_left _ _)).skip (covered_one.mpr ?_)
    intro hash carried
    rw [(carries hash).mp carried]
    exact List.mem_append_right _ List.mem_cons_self
  · exact .start place.2

theorem Placed.step (placed : Placed rt cfg feed loop) (event : LoopEvent) :
    Placed rt cfg feed (loop.step rt cfg feed event) := by
  obtain ⟨lastId, seen, published, phase⟩ := loop
  cases event with
  | connect =>
    cases phase with
    | waiting => exact ⟨placed.seen, Ahead.start rfl⟩
    | _ => exact placed
  | next fresh stopping =>
    cases phase with
    | streaming ahead =>
      cases ahead with
      | nil => exact placed
      | cons event rest => exact placed.handed rfl (handed_next rt cfg fresh stopping rfl)
    | _ => exact placed
  | drop =>
    cases phase with
    | streaming rest => exact ⟨placed.seen, trivial⟩
    | _ => exact placed
  | published ok =>
    cases phase with
    | publishing eventId item rest =>
      cases ok with
      | false => exact ⟨placed.seen, trivial⟩
      | true =>
        have known : seen ⊆ published := placed.seen
        have kept := remember_subset known item.contentHash
        simp only [Loop.step, Loop.settle, if_true]
        refine ⟨?_, ?_⟩
        · dsimp only
          exact kept
        · exact ahead_published placed.position
    | _ => exact placed
  | stop =>
    cases phase with
    | waiting => exact ⟨placed.seen, trivial⟩
    | _ => exact placed

/-- What is covered up to the last id: all but the event with an id that is being published. -/
def Behind (rt : Runtime) (cfg : Config) (feed : Feed) (loop : Loop) : Prop :=
  match loop.phase with
  | .publishing eventId item _ =>
    Covered rt cfg (if eventId = "" then loop.published
      else loop.published ++ [item.contentHash]) (upToMark SseEvent.id loop.lastId feed.events)
  | .stopped => True
  | _ => Gapless rt cfg feed loop

/-- The mark moves to an event: it covers what it did, and that event. -/
theorem Ahead.covered_iff (ahead : Ahead rt cfg feed lastId published (event :: rest))
    (gapless : Covered rt cfg published (upToMark SseEvent.id lastId feed.events)) :
    Covered rt cfg published (upToMark SseEvent.id (moveTo lastId event.id) feed.events) ↔
      (event.id ≠ "" → Covered rt cfg published [event]) := by
  by_cases unnamed : event.id = ""
  · rw [moveTo, if_pos unnamed]
    exact iff_of_true gapless fun named => absurd unnamed named
  · obtain ⟨skipped, passed, _, covered⟩ := ahead.moves
    rw [moveTo, if_neg unnamed, passed, Covered.append, Covered.append]
    exact ⟨fun whole _ => whole.2, fun last => ⟨⟨gapless, covered⟩, last unnamed⟩⟩

theorem Behind.handed {after : Loop} (placed : Placed rt cfg feed loop)
    (current : loop.phase = .streaming (event :: rest)) (gapless : Gapless rt cfg feed loop)
    (handed : Handed rt cfg loop event rest after) : Behind rt cfg feed after := by
  have ahead := placed.ahead current
  cases handed with
  | skipped other => exact gapless
  | ended => trivial
  | raised carries =>
    refine (ahead.covered_iff gapless).mpr fun _ => covered_one.mpr fun hash carried => ?_
    exact absurd carried (carries hash)
  | passed carries =>
    refine (ahead.covered_iff gapless).mpr fun _ => covered_one.mpr fun hash carried => ?_
    exact placed.seen (carries hash carried)
  | publishes item carries =>
    change Covered rt cfg (if event.id = "" then _ else _) _
    split
    · rename_i unnamed
      exact (ahead.covered_iff gapless).mpr fun named => absurd unnamed named
    · have grows : loop.published ⊆ loop.published ++ [item.contentHash] :=
        List.subset_append_left _ _
      refine ((ahead.mono grows).covered_iff (gapless.mono grows)).mpr fun _ => ?_
      refine covered_one.mpr fun hash carried => ?_
      rw [(carries hash).mp carried]
      exact List.mem_append_right _ List.mem_cons_self

/-- A failed publish leaves no gap exactly if its hash is there already, or if its event
has no id. -/
theorem gapless_failed {eventId : String} {item : Item}
    (position : Position rt cfg feed lastId published (.publishing eventId item rest))
    (behind : Covered rt cfg (if eventId = "" then published
      else published ++ [item.contentHash]) (upToMark SseEvent.id lastId feed.events)) :
    Covered rt cfg published (upToMark SseEvent.id lastId feed.events) ↔
      (eventId ≠ "" → item.contentHash ∈ published) := by
  obtain ⟨event, carries, place⟩ := position
  by_cases unnamed : eventId = ""
  · rw [if_pos unnamed] at behind
    exact iff_of_true behind fun named => absurd unnamed named
  · rw [if_neg unnamed] at behind place
    constructor
    · intro covered _
      exact covered event place.1 item.contentHash ((carries _).mpr rfl)
    · intro there
      refine behind.mono fun hash member => ?_
      rcases List.mem_append.mp member with old | new
      · exact old
      · rw [List.mem_singleton.mp new]
        exact there unnamed

theorem covered_succeeded {eventId : String} {item : Item}
    (behind : Covered rt cfg (if eventId = "" then published
      else published ++ [item.contentHash]) (upToMark SseEvent.id lastId feed.events)) :
    Covered rt cfg (published ++ [item.contentHash])
      (upToMark SseEvent.id lastId feed.events) := by
  split at behind
  · exact behind.mono (List.subset_append_left _ _)
  · exact behind

theorem Behind.step (placed : Placed rt cfg feed loop) (behind : Behind rt cfg feed loop)
    {event : LoopEvent} (kept : NoneLost loop event) :
    Behind rt cfg feed (loop.step rt cfg feed event) := by
  obtain ⟨lastId, seen, published, phase⟩ := loop
  cases event with
  | next fresh stopping =>
    cases phase with
    | streaming ahead =>
      cases ahead with
      | nil => exact behind
      | cons event rest =>
        exact Behind.handed placed rfl behind (handed_next rt cfg fresh stopping rfl)
    | _ => exact behind
  | published ok =>
    cases phase with
    | publishing eventId item rest =>
      cases ok with
      | false => exact (gapless_failed placed.position behind).mpr kept
      | true => exact covered_succeeded behind
    | _ => exact behind
  | connect =>
    cases phase with
    | _ => exact behind
  | drop =>
    cases phase with
    | _ => exact behind
  | stop =>
    cases phase with
    | waiting => trivial
    | _ => exact behind

theorem Behind.atRest (behind : Behind rt cfg feed loop) : AtRest rt cfg feed loop := by
  obtain ⟨lastId, seen, published, phase⟩ := loop
  cases phase with
  | waiting => exact behind
  | _ => trivial

/-- A step comes to rest with a gap only where a publish fails. -/
theorem atRest_step_iff (placed : Placed rt cfg feed loop) (behind : Behind rt cfg feed loop)
    (event : LoopEvent) :
    AtRest rt cfg feed (loop.step rt cfg feed event) ↔ NoneLost loop event := by
  refine ⟨fun rests => ?_, fun kept => (behind.step placed kept).atRest⟩
  obtain ⟨lastId, seen, published, phase⟩ := loop
  cases event with
  | published ok =>
    cases ok with
    | false =>
      cases phase with
      | publishing eventId item rest => exact (gapless_failed placed.position behind).mp rests
      | _ => trivial
    | true => trivial
  | _ => trivial

theorem Handed.gapless_iff {after : Loop} (handed : Handed rt cfg loop event rest after)
    (placed : Placed rt cfg feed loop) (current : loop.phase = .streaming (event :: rest))
    (gapless : Gapless rt cfg feed loop) :
    Gapless rt cfg feed after ↔ (event.id ≠ "" → Covered rt cfg loop.published [event]) := by
  have moved := (placed.ahead current).covered_iff gapless
  cases handed with
  | skipped other => exact iff_of_true gapless fun _ => covered_of_not_isDict other
  | _ => exact moved

/-- A step leaves a gap exactly where it is handed what is not yet published. -/
theorem gapless_step_iff (placed : Placed rt cfg feed loop) (gapless : Gapless rt cfg feed loop)
    (event : LoopEvent) :
    Gapless rt cfg feed (loop.step rt cfg feed event) ↔ NoneNew rt cfg loop event := by
  obtain ⟨lastId, seen, published, phase⟩ := loop
  cases event with
  | next fresh stopping =>
    cases phase with
    | streaming ahead =>
      cases ahead with
      | nil => exact iff_of_true gapless trivial
      | cons event rest =>
        exact (handed_next rt cfg fresh stopping rfl).gapless_iff placed rfl gapless
    | _ => exact iff_of_true gapless trivial
  | published ok =>
    refine iff_of_true ?_ trivial
    cases phase with
    | publishing eventId item rest =>
      cases ok with
      | false => exact gapless
      | true => exact Covered.mono gapless (List.subset_append_left _ _)
    | _ => exact gapless
  | _ =>
    refine iff_of_true ?_ trivial
    cases phase with
    | _ => exact gapless

end Step

section Runs

variable {rt : Runtime} {cfg : Config} {feed : Feed} {events : List LoopEvent}

theorem placed_start : Placed rt cfg feed {} := ⟨List.Subset.refl _, trivial⟩

theorem gapless_start : Gapless rt cfg feed {} := by
  simp [Gapless, upToMark, Covered]

theorem always_atRest_iff : Always (Loop.step rt cfg feed) (AtRest rt cfg feed) {} events ↔
    Along (Loop.step rt cfg feed) NoneLost {} events := by
  have start : AtRest rt cfg feed {} := gapless_start
  rw [always_iff_along, and_iff_right start]
  refine along_congr (along_of_forall fun _ _ => trivial)
    (fun loop => Placed rt cfg feed loop ∧ Behind rt cfg feed loop) ⟨placed_start, gapless_start⟩
    (fun loop event invariant _ => atRest_step_iff invariant.1 invariant.2 event) ?_
  intro loop event ⟨placed, behind⟩ rests
  exact ⟨placed.step event, behind.step placed ((atRest_step_iff placed behind event).mp rests)⟩

theorem always_gapless_iff : Always (Loop.step rt cfg feed) (Gapless rt cfg feed) {} events ↔
    Along (Loop.step rt cfg feed) (NoneNew rt cfg) {} events := by
  rw [always_iff_along, and_iff_right gapless_start]
  refine along_congr (along_of_forall fun _ _ => trivial)
    (fun loop => Placed rt cfg feed loop ∧ Gapless rt cfg feed loop)
    ⟨placed_start, gapless_start⟩
    (fun loop event invariant _ => gapless_step_iff invariant.1 invariant.2 event) ?_
  intro loop event ⟨placed, _⟩ gapless
  exact ⟨placed.step event, gapless⟩

end Runs

/-- A run leaves no gap where it resumes exactly if no publish of a new hash fails; and it
leaves none at any point exactly if it is never handed what is not yet published. -/
theorem resume_iff (rt : Runtime) (cfg : Config) (feed : Feed) (events : List LoopEvent) :
    (Always (Loop.step rt cfg feed) (AtRest rt cfg feed) {} events ↔
        Along (Loop.step rt cfg feed) NoneLost {} events) ∧
      (Always (Loop.step rt cfg feed) (Gapless rt cfg feed) {} events ↔
        Along (Loop.step rt cfg feed) (NoneNew rt cfg) {} events) :=
  ⟨always_atRest_iff, always_gapless_iff⟩

/-- An edit of an article. -/
def edit : SseEvent where
  id := "1"
  data := .dict [
    (PyStr.of "meta", .dict [(PyStr.of "domain", .str (PyStr.of "en.wikipedia.org"))]),
    (PyStr.of "namespace", .int 0), (PyStr.of "type", .str (PyStr.of "edit")),
    (PyStr.of "bot", .bool false), (PyStr.of "title", .str (PyStr.of "Kyiv")),
    (PyStr.of "revision", .dict [(PyStr.of "new", .int 7)])]

def oneEdit : Feed := ⟨[edit], by decide⟩

theorem carries_edit : Carries .plain {} edit "wiki:en.wikipedia.org:7" :=
  ⟨⟨1, ⟨0, 0⟩, ⟨0, 0⟩⟩, _, rfl, by decide +kernel⟩

/-- The loop connects, is handed an event, and its publish fails. -/
def lostPublish : List LoopEvent :=
  [.connect, .next ⟨1, ⟨0, 0⟩, ⟨0, 0⟩⟩ false, .published false]

theorem run_lostPublish :
    run (Loop.step .plain {} oneEdit) {} lostPublish = { lastId := some "1" } := rfl

/-- The loop resumes after an edit that was not published. -/
theorem edit_lost :
    ¬ Always (Loop.step .plain {} oneEdit) (AtRest .plain {} oneEdit) {} lostPublish ∧
      ¬ Always (Loop.step .plain {} oneEdit) (Gapless .plain {} oneEdit) {} lostPublish := by
  have lost : ¬ Gapless .plain {} oneEdit { lastId := some "1" } := by
    intro gapless
    have member : edit ∈ upToMark SseEvent.id (some "1") oneEdit.events := List.mem_cons_self
    exact List.not_mem_nil (gapless edit member _ carries_edit)
  constructor
  · intro rests
    have last := rests lostPublish (List.prefix_refl _)
    rw [run_lostPublish] at last
    exact lost last
  · intro gapless
    have last := gapless lostPublish (List.prefix_refl _)
    rw [run_lostPublish] at last
    exact lost last

end NewsAggregator.Ingest.Wikipedia
