import NewsAggregator.Foundation.Paging
import NewsAggregator.Ingest.Sink

/-! The poll loop over the public timelines of some instances: a page at a time, with a
cursor for each instance and one memory for them all. -/

namespace NewsAggregator.Ingest.Mastodon

open Foundation

/-- The settings of the environment. -/
structure Config where
  langs : List PyStr := [PyStr.of "en"]
  skipBots : Bool := true
  pageLimit : ℕ := 40
  positive : 0 < pageLimit := by decide

/-- The variables of `run`. -/
structure Ingester where
  sink : Sink := {}
  cursors : String → Option PyStr := fun _ => none

/-- What the statuses of a page meet: whether the publish of each returns, and the clock. -/
structure Attempt where
  sends : PyValue → Bool
  fresh : PyValue → Fresh

abbrev Config.feed (cfg : Config) (instanceName : String) : Feed :=
  .mastodon cfg.langs cfg.skipBots instanceName

section Code

variable (rt : Runtime) (cfg : Config) (instanceName : String) (attempt : Attempt)

/-- `str(status.get("id", ""))` -/
def idOf (status : PyValue) : PyStr := toStr rt (status.getOr "id" (.str []))

/-- The loop over the statuses, and whether none raises. -/
def publishAll (sink : Sink) : List PyValue → Sink × Bool
  | [] => (sink, true)
  | status :: rest =>
    match sink.emit ((cfg.feed instanceName).path rt (attempt.fresh status) status)
      (attempt.sends status) with
    | (next, true) => publishAll next rest
    | (next, false) => (next, false)

/-- The first id becomes the cursor, unless it is empty. -/
def newest (sinceId : Option PyStr) (first : PyValue) : Option PyStr :=
  if idOf rt first = [] then sinceId else some (idOf rt first)

/-- `poll_instance` on what the server answers, if it does; where it raises, the cursor
stays. -/
def pollInstance (ingester : Ingester) (answer : Option PyValue) : Ingester :=
  match answer with
  | some (.list (first :: rest)) =>
    if first.isDict then
      let walked := publishAll rt cfg instanceName attempt ingester.sink (first :: rest)
      { sink := walked.1
        cursors :=
          if walked.2 then
            Function.update ingester.cursors instanceName
              (newest rt (ingester.cursors instanceName) first)
          else ingester.cursors }
    else ingester
  | _ => ingester

end Code

/-- The public timeline of an instance, oldest first. -/
structure Timeline (rt : Runtime) where
  statuses : List PyValue
  named : ∀ status ∈ statuses, status.isDict ∧ idOf rt status ≠ []
  distinct : (statuses.map (idOf rt)).Nodup

/-- A status comes last, under an id of its own. -/
def Timeline.post {rt : Runtime} (timeline : Timeline rt) (status : PyValue) : Timeline rt :=
  if new : (status.isDict ∧ idOf rt status ≠ []) ∧
      idOf rt status ∉ timeline.statuses.map (idOf rt) then
    { statuses := timeline.statuses ++ [status]
      named := by
        intro other member
        rcases List.mem_append.mp member with old | last
        · exact timeline.named other old
        · rw [List.mem_singleton.mp last]
          exact new.1
      distinct := by
        have concat := timeline.distinct.concat new.2
        simpa using concat }
  else timeline

structure World (rt : Runtime) where
  timelines : String → Timeline rt
  ingester : Ingester := {}

/-- A status is posted on an instance, or the loop polls one, which may fail to answer. -/
inductive Event where
  | post (instanceName : String) (status : PyValue)
  | poll (instanceName : String) (answered : Bool) (attempt : Attempt)

section Runs

variable (rt : Runtime) (cfg : Config)

/-- The page the instance answers with. -/
def World.page {rt : Runtime} (world : World rt) (instanceName : String) : List PyValue :=
  Foundation.page (idOf rt) cfg.pageLimit (world.ingester.cursors instanceName)
    (world.timelines instanceName).statuses

def step (world : World rt) : Event → World rt
  | .post instanceName status =>
    { world with
      timelines := Function.update world.timelines instanceName
        ((world.timelines instanceName).post status) }
  | .poll instanceName answered attempt =>
    let answer := if answered then some (.list (world.page cfg instanceName)) else none
    { world with ingester := pollInstance rt cfg instanceName attempt world.ingester answer }

variable {rt} (start : String → Timeline rt)

/-- What was posted on an instance since the start, up to the cursor. -/
def World.passed (world : World rt) (instanceName : String) : List PyValue :=
  (upToMark (idOf rt) (world.ingester.cursors instanceName)
    (world.timelines instanceName).statuses).drop (start instanceName).statuses.length

/-- Of what was posted since the start, up to the cursors nothing is missing. -/
def Gapless (world : World rt) : Prop := ∀ instanceName,
  Covered rt (cfg.feed instanceName) world.ingester.sink.published
    (world.passed start instanceName)

/-- What was posted since the start and lies between the cursor and its page. -/
def World.skipped (world : World rt) (instanceName : String) : List PyValue :=
  let cursor := world.ingester.cursors instanceName
  let statuses := (world.timelines instanceName).statuses
  (overrun (idOf rt) cfg.pageLimit cursor statuses).drop
    ((start instanceName).statuses.length - (upToMark (idOf rt) cursor statuses).length)

/-- Where no status of the page raises, what lies between cursor and page was published
before, or comes again on the page. -/
def NoneSkipped (world : World rt) : Event → Prop
  | .poll instanceName true attempt =>
    (publishAll rt cfg instanceName attempt world.ingester.sink
        (world.page cfg instanceName)).2 = true →
      ∀ status ∈ world.skipped cfg start instanceName, ∀ hash,
        Carries rt (cfg.feed instanceName) status hash →
          hash ∈ world.ingester.sink.published ∨
            ∃ newer ∈ world.page cfg instanceName, Carries rt (cfg.feed instanceName) newer hash
  | _ => True

/-- A page of statuses that all return and go out takes the cursor to the last status. -/
def CatchesUp (world : World rt) : Event → Prop
  | .poll instanceName true attempt =>
    (∀ status ∈ world.page cfg instanceName, attempt.sends status ∧
        (cfg.feed instanceName).Tame rt (attempt.fresh status) status) →
      let after := step rt cfg world (.poll instanceName true attempt)
      afterMark (idOf rt) (after.ingester.cursors instanceName)
        (after.timelines instanceName).statuses = []
  | _ => True

end Runs

section Walk

variable (rt : Runtime) (cfg : Config) (instanceName : String) (attempt : Attempt)
  {sink : Sink} {statuses : List PyValue}

theorem publishAll_handled (sound : sink.Sound) (statuses : List PyValue) :
    Handled rt (cfg.feed instanceName) sink statuses
      (publishAll rt cfg instanceName attempt sink statuses) := by
  induction statuses generalizing sink with
  | nil => exact handled_nil sound
  | cons status rest ih =>
    rw [publishAll]
    have one := emit_handled (steady_mastodon rt cfg.langs cfg.skipBots instanceName) sound
      (attempt.fresh status) status (attempt.sends status)
    rcases emitted : sink.emit _ _ with ⟨next, done | done⟩
    · rw [emitted] at one
      exact one.ends
    · rw [emitted] at one
      exact one.cons (ih one.sound)

theorem publishAll_ends (sink : Sink) (good : ∀ status ∈ statuses, attempt.sends status ∧
    (cfg.feed instanceName).Tame rt (attempt.fresh status) status) :
    (publishAll rt cfg instanceName attempt sink statuses).2 = true := by
  induction statuses generalizing sink with
  | nil => rfl
  | cons status rest ih =>
    obtain ⟨sends, tame⟩ := good status List.mem_cons_self
    have one := emit_ends sink tame
    rw [publishAll, sends]
    rcases emitted : sink.emit _ _ with ⟨next, done | done⟩
    · rw [emitted] at one
      cases one
    · exact ih next fun other member => good other (List.mem_cons_of_mem _ member)

end Walk

section Step

variable {rt : Runtime} {cfg : Config} {start : String → Timeline rt} {world : World rt}
  {instanceName : String}

/-- Everything a poll can do: the ingester stays; or a status raises, and the cursors stay;
or the page is walked to its end, and its first id is the cursor. -/
theorem step_poll (cfg : Config) (world : World rt) (instanceName : String) (attempt : Attempt) :
    let walked := publishAll rt cfg instanceName attempt world.ingester.sink
      (world.page cfg instanceName)
    (world.page cfg instanceName = [] ∧
      step rt cfg world (.poll instanceName true attempt) = world) ∨
    (walked.2 = false ∧ step rt cfg world (.poll instanceName true attempt) =
      { world with ingester := { world.ingester with sink := walked.1 } }) ∨
    (walked.2 = true ∧ ∃ first rest, world.page cfg instanceName = first :: rest ∧
      step rt cfg world (.poll instanceName true attempt) =
        { world with
          ingester := {
            sink := walked.1
            cursors := Function.update world.ingester.cursors instanceName
              (some (idOf rt first)) } }) := by
  intro walked
  cases answer : world.page cfg instanceName with
  | nil =>
    left
    simp only [step, answer, if_true, pollInstance, true_and]
  | cons first rest =>
    have listed : first ∈ (world.timelines instanceName).statuses :=
      mem_of_mem_page (answer ▸ List.mem_cons_self)
    obtain ⟨object, named⟩ := (world.timelines instanceName).named first listed
    have next : step rt cfg world (.poll instanceName true attempt) =
        { world with
          ingester := {
            sink := walked.1
            cursors :=
              if walked.2 then
                Function.update world.ingester.cursors instanceName (some (idOf rt first))
              else world.ingester.cursors } } := by
      simp only [step, answer, if_true, pollInstance, object, newest, if_neg named, walked]
    right
    cases done : walked.2 with
    | false => exact .inl ⟨rfl, by rw [next, done]; rfl⟩
    | true => exact .inr ⟨rfl, first, rest, rfl, by rw [next, done]; rfl⟩

/-- The cursors are ids of their timelines. -/
structure Placed (world : World rt) : Prop where
  sound : world.ingester.sink.Sound
  known : ∀ instanceName, OnLog (idOf rt) (world.ingester.cursors instanceName)
    (world.timelines instanceName).statuses

theorem statuses_post (timeline : Timeline rt) (status : PyValue) :
    ∃ more, (timeline.post status).statuses = timeline.statuses ++ more := by
  rw [Timeline.post]
  split
  · exact ⟨[status], rfl⟩
  · exact ⟨[], (List.append_nil _).symm⟩

/-- A post is behind every cursor. -/
theorem passed_post (cfg : Config) (placed : Placed world) (start : String → Timeline rt)
    (instanceName : String)
    (status : PyValue) :
    (step rt cfg world (.post instanceName status)).passed start = world.passed start := by
  funext other
  simp only [World.passed, step]
  by_cases same : other = instanceName
  · subst same
    obtain ⟨more, posted⟩ := statuses_post (world.timelines other) status
    rw [Function.update_self, posted, upToMark_append (placed.known other)]
  · rw [Function.update_of_ne same]

theorem Placed.step (placed : Placed world) (event : Event) : Placed (step rt cfg world event) := by
  cases event with
  | post instanceName status =>
    refine ⟨placed.sound, fun other => ?_⟩
    by_cases same : other = instanceName
    · subst same
      obtain ⟨more, posted⟩ := statuses_post (world.timelines other) status
      simp only [Mastodon.step, Function.update_self, posted]
      exact (placed.known other).append more
    · simp only [Mastodon.step, Function.update_of_ne same]
      exact placed.known other
  | poll instanceName answered attempt =>
    cases answered with
    | false => exact placed
    | true =>
      have handled := publishAll_handled rt cfg instanceName attempt placed.sound
        (world.page cfg instanceName)
      rcases step_poll cfg world instanceName attempt with ⟨_, same⟩ | ⟨_, next⟩ |
        ⟨_, first, rest, answer, next⟩
      · rwa [same]
      · rw [next]
        exact ⟨handled.sound, placed.known⟩
      · rw [next]
        refine ⟨handled.sound, fun other => ?_⟩
        by_cases same : other = instanceName
        · subst same
          dsimp only
          rw [Function.update_self]
          exact onLog_head answer
        · dsimp only
          rw [Function.update_of_ne same]
          exact placed.known other

/-- The cursor moves past what it passed over and the page. -/
theorem passed_advance (start : String → Timeline rt) (ingester : Ingester) {first : PyValue}
    {rest : List PyValue}
    (answer : world.page cfg instanceName = first :: rest)
    (cursor : ingester.cursors instanceName = some (idOf rt first)) :
    World.passed start { world with ingester } instanceName =
      world.passed start instanceName ++ world.skipped cfg start instanceName ++
        (world.page cfg instanceName).reverse.drop
          ((start instanceName).statuses.length - (upToMark (idOf rt)
            (world.ingester.cursors instanceName) (world.timelines instanceName).statuses ++
            overrun (idOf rt) cfg.pageLimit (world.ingester.cursors instanceName)
              (world.timelines instanceName).statuses).length) := by
  have whole := (move_to_page (world.timelines instanceName).distinct answer).1
  rw [World.passed, World.passed, World.skipped, cursor, whole, ← List.drop_append,
    ← List.drop_append, List.append_assoc]
  rw [World.page, overrun_append_page, upToMark_append_afterMark]

theorem gapless_step_iff (placed : Placed world) (gapless : Gapless cfg start world)
    (event : Event) :
    Gapless cfg start (step rt cfg world event) ↔ NoneSkipped cfg start world event := by
  cases event with
  | post instanceName status =>
    have same := passed_post cfg placed start instanceName status
    refine iff_of_true (fun other => ?_) trivial
    rw [same]
    exact gapless other
  | poll instanceName answered attempt =>
    cases answered with
    | false => exact iff_of_true gapless trivial
    | true =>
      have handled := publishAll_handled rt cfg instanceName attempt placed.sound
        (world.page cfg instanceName)
      rcases step_poll cfg world instanceName attempt with ⟨answer, same⟩ | ⟨raised, next⟩ |
        ⟨done, first, rest, answer, next⟩
      · rw [same]
        refine iff_of_true gapless fun _ status member => ?_
        have caught := afterMark_of_page cfg.positive answer
        rw [World.skipped, overrun, caught] at member
        simp at member
      · rw [next]
        refine iff_of_true (fun other => (gapless other).mono handled.grows) fun done => ?_
        exact absurd (raised.symm.trans done) Bool.false_ne_true
      · rw [next]
        have own := fun sink : Sink => passed_advance start ⟨sink, Function.update
          world.ingester.cursors instanceName (some (idOf rt first))⟩ answer
          (Function.update_self ..)
        constructor
        · intro after _ status member hash carries
          have covered := after instanceName
          rw [own] at covered
          refine handled.origin hash (covered status ?_ hash carries)
          exact List.mem_append_left _ (List.mem_append_right _ member)
        · intro none other
          by_cases same : other = instanceName
          · subst same
            rw [own, Covered.append, Covered.append]
            refine ⟨⟨(gapless other).mono handled.grows, ?_⟩, ?_⟩
            · intro status member hash carries
              rcases none done status member hash carries with old | ⟨newer, listed, again⟩
              · exact handled.grows old
              · exact handled.covers done newer listed hash again
            · refine (handled.covers done).subset fun status member => ?_
              exact List.mem_reverse.mp (List.mem_of_mem_drop member)
          · have frame := (gapless other).mono handled.grows
            simpa only [World.passed, Function.update_of_ne same] using frame

theorem catches_up (cfg : Config) (world : World rt) (event : Event) :
    CatchesUp cfg world event := by
  cases event with
  | post instanceName status => trivial
  | poll instanceName answered attempt =>
    cases answered with
    | false => trivial
    | true =>
      intro good
      have ended := publishAll_ends rt cfg instanceName attempt world.ingester.sink good
      rcases step_poll cfg world instanceName attempt with ⟨answer, same⟩ | ⟨raised, _⟩ |
        ⟨_, first, rest, answer, next⟩
      · dsimp only
        rw [same]
        exact afterMark_of_page cfg.positive answer
      · exact absurd (raised.symm.trans ended) Bool.false_ne_true
      · dsimp only
        rw [next]
        dsimp only
        rw [Function.update_self]
        exact (move_to_page (world.timelines instanceName).distinct answer).2

end Step

/-- Of what is posted since the start, nothing up to a cursor is ever missing exactly if no
page passes over a status that is neither published nor on it; a page that raises nothing
takes its cursor to the end; and no hash is published while it is among the last ones. -/
theorem timelines_gapless_iff (rt : Runtime) (cfg : Config) (start : String → Timeline rt)
    (events : List Event) :
    (Always (step rt cfg) (Gapless cfg start) ⟨start, {}⟩ events ↔
        Along (step rt cfg) (NoneSkipped cfg start) ⟨start, {}⟩ events) ∧
      Along (step rt cfg) (CatchesUp cfg) ⟨start, {}⟩ events ∧
      Always (step rt cfg) (fun world => Spaced world.ingester.sink.published) ⟨start, {}⟩
        events := by
  have along : Along (step rt cfg) (fun _ _ => True) ⟨start, {}⟩ events :=
    along_of_forall fun _ _ => trivial
  have placed : Placed (⟨start, {}⟩ : World rt) := ⟨Sink.sound_start, nofun⟩
  have gapless : Gapless cfg start ⟨start, {}⟩ := by
    intro instanceName
    have none : World.passed start ⟨start, {}⟩ instanceName = [] := List.drop_nil
    rw [none]
    exact covered_nil
  refine ⟨?_, ?_, ?_⟩
  · rw [always_iff_along, and_iff_right gapless]
    refine along_congr along (fun world => Placed world ∧ Gapless cfg start world)
      ⟨placed, gapless⟩ (fun _ event holds _ => gapless_step_iff holds.1 holds.2 event) ?_
    exact fun _ event holds next => ⟨holds.1.step event, next⟩
  · exact along_of_forall (catches_up cfg)
  · have always := along.always Placed placed fun _ event holds _ => holds.step event
    exact fun before initial => (always before initial).sound.spaced

end NewsAggregator.Ingest.Mastodon
