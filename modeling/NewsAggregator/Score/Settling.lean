import NewsAggregator.Score.Counting
import NewsAggregator.Score.Feedback

/-! Runs of the score worker as a feedback loop while the window stays as it is: where the
scores settle. -/

namespace NewsAggregator.Score

open Foundation

namespace Worker

/-- The Story whose score the event writes. -/
def writes (worker : Worker) : WorkerEvent → Option Uuid
  | .advance =>
    match worker.running with
    | .call stmt _ => stmt.target
    | _ => none
  | _ => none

/-- The Stories whose scores the events write, in order. -/
def written (cfg : Config) (py : Python) : Worker → List WorkerEvent → List Uuid
  | _, [] => []
  | worker, event :: rest =>
    (worker.writes event).toList ++ written cfg py (worker.step cfg py event) rest

/-- Others leave the window and the scores as they are. -/
def Quiet (worker : Worker) : WorkerEvent → Prop
  | .change db => worker.db.SameWindow db ∧ db.scoreOf = worker.db.scoreOf
  | _ => True

end Worker

/-- The states of a window with these scores. -/
def Tables.scored (db : Tables) (scores : Uuid → ℚ) : Set Tables :=
  {other | db.SameWindow other ∧ other.scoreOf = scores}

/-- The tables are those of the window, and the counts of the worker are up to date. -/
structure Worker.Looping (cfg : Config) (db : Tables) (worker : Worker) : Prop where
  window : db.SameWindow worker.db
  counted : worker.Counted cfg (db.scored worker.db.scoreOf)

section Looping

variable {cfg : Config} {py : Python} {db : Tables} {worker : Worker} {counts : Counts}
  {storyId : Uuid} {score : ℚ}

/-- Up-to-date counts give what the operator computes. -/
theorem Counts.Gives.rescore (keys : (db.stories.map fun row => row.id).Nodup)
    {scores : Uuid → ℚ} (origin : counts.From cfg (db.scored scores))
    (gives : counts.Gives cfg storyId score) :
    score = rescore cfg db scores storyId ∧ ∃ row ∈ db.stories, row.id = storyId := by
  obtain ⟨story, listed, rfl, social, synced, copyEdges, lowRep, syncRead, copiesRead, lowRead,
    rfl⟩ := gives
  obtain ⟨atStory, ⟨storyWindow, _⟩, row, member, named, origins⟩ := origin.stories story listed
  obtain ⟨atSync, ⟨syncWindow, _⟩, sync⟩ := origin.sync _ syncRead
  obtain ⟨atCopies, ⟨copiesWindow, _⟩, copies⟩ := origin.copyEdges _ copiesRead
  obtain ⟨atLow, ⟨lowWindow, rfl⟩, low⟩ := origin.lowRep _ lowRead
  have keysThere : (atStory.stories.map fun row => row.id).Nodup := by rwa [storyWindow.ids]
  have found : (db.stories.find? fun row => row.id = story.id).map
      (fun story => story.independentOrigins) = some story.independentOrigins := by
    rw [← storyWindow.find, ← named, find_of_mem keysThere member, Option.map_some, origins]
  obtain ⟨here, stored, same⟩ := Option.map_eq_some_iff.mp found
  rw [syncWindow.inauthSync] at sync
  rw [copiesWindow.inauthCopyEdges] at copies
  rw [lowWindow.inauthLowRep keys] at low
  constructor
  · rw [rescore_eq, stored, Option.map_some, Option.getD_some, same, sync, copies, low]
  · exact ⟨here, List.mem_of_find?_eq_some stored, by simpa using List.find?_some stored⟩

theorem Worker.Looping.proceed (looping : worker.Looping cfg db) {other : Tables}
    (window : worker.db.SameWindow other) (scores : other.scoreOf = worker.db.scoreOf)
    {running : Program ScoreStmt Unit} {reads : Reads} {raised : List Raised}
    (obeys : (counting cfg).Obeys (fun _ _ => True) counts running)
    (origin : counts.From cfg (db.scored worker.db.scoreOf)) :
    Worker.Looping cfg db ⟨other, running, reads, raised⟩ := by
  refine ⟨looping.window.trans window, counts, obeys, ?_⟩
  rwa [scores]

theorem Worker.Looping.start (looping : worker.Looping cfg db) (now : Int) :
    (worker.start cfg py now).Looping cfg db ∧
      (worker.start cfg py now).db.scoreOf = worker.db.scoreOf := by
  rw [Worker.start]
  split
  · exact ⟨looping, rfl⟩
  · have fresh : Counts.From cfg {} (db.scored worker.db.scoreOf) :=
      ⟨by simp, by simp, by simp, by simp⟩
    exact ⟨looping.proceed (.refl _) rfl (obeys_counting_cycle cfg py now {}) fresh, rfl⟩

/-- A statement that writes no score leaves the loop as it is, one that does revises the
score of its Story. -/
theorem Worker.Looping.advance (looping : worker.Looping cfg db)
    (keys : (db.stories.map fun row => row.id).Nodup) :
    (worker.advance cfg).Looping cfg db ∧ (worker.advance cfg).db.scoreOf =
      run (revise (rescore cfg db)) worker.db.scoreOf (worker.writes .advance).toList := by
  obtain ⟨window, counts, obeys, origin⟩ := looping
  rw [Worker.advance, Worker.writes]
  cases current : worker.running with
  | done value => exact ⟨⟨window, counts, obeys, origin⟩, rfl⟩
  | raise => exact ⟨⟨window, counts, obeys, origin⟩, rfl⟩
  | call stmt next =>
    rw [current] at obeys
    have inside : worker.db ∈ db.scored worker.db.scoreOf := ⟨window, rfl⟩
    cases target : stmt.target with
    | none =>
      obtain ⟨stories, items, edges⟩ := exec_read target worker.db
      have same : worker.db.SameWindow (exec _ stmt worker.db).2 :=
        ⟨items, edges, by rw [stories]⟩
      have scores : (exec _ stmt worker.db).2.scoreOf = worker.db.scoreOf := by
        funext id
        rw [Tables.scoreOf, stories]
        rfl
      refine ⟨⟨window.trans same, _, obeys.2 _, ?_⟩, ?_⟩
      · dsimp only
        rw [scores]
        exact origin.observe inside obeys.1 target
      · dsimp only
        rw [target]
        exact scores
    | some storyId =>
      cases stmt with
      | updateScores id vz presence gap score =>
        obtain rfl := Option.some.inj target
        obtain ⟨value, present⟩ := Counts.Gives.rescore keys origin obeys.1
        have here : ∃ row ∈ worker.db.stories, row.id = id := by
          obtain ⟨row, member, named⟩ := present
          have ids : id ∈ db.stories.map fun row => row.id := List.mem_map.mpr ⟨row, member, named⟩
          rw [← window.ids] at ids
          exact List.mem_map.mp ids
        have same : worker.db.SameWindow (worker.db.updateScores id vz presence gap score) :=
          sameWindow_updateScores vz presence gap score
        refine ⟨⟨window.trans same, _, obeys.2 _, ?_⟩, ?_⟩
        · refine ⟨fun story member => ?_, by simp [counting], by simp [counting],
            by simp [counting]⟩
          obtain ⟨tables, ⟨earlier, _⟩, row⟩ := origin.stories story member
          exact ⟨_, ⟨window.trans same, rfl⟩, (window.trans same).symm.row (earlier.row row)⟩
        · exact (scoreOf_updateScores vz presence gap score here).trans (by rw [value]; rfl)
      | _ => cases target

/-- One step of the worker is at most one step of the iteration. -/
theorem Worker.Looping.step (looping : worker.Looping cfg db)
    (keys : (db.stories.map fun row => row.id).Nodup) {event : WorkerEvent}
    (quiet : worker.Quiet event) : (worker.step cfg py event).Looping cfg db ∧
      (worker.step cfg py event).db.scoreOf =
        run (revise (rescore cfg db)) worker.db.scoreOf (worker.writes event).toList := by
  cases event with
  | change other =>
    obtain ⟨counts, obeys, origin⟩ := looping.counted
    exact ⟨looping.proceed quiet.1 quiet.2 obeys origin, quiet.2⟩
  | start now => exact looping.start now
  | advance => exact looping.advance keys
  | abort =>
    obtain ⟨counts, _, origin⟩ := looping.counted
    exact ⟨looping.proceed (.refl _) rfl trivial origin, rfl⟩

/-- A run of the worker is an iteration over the Stories it writes. -/
theorem Worker.Looping.run (looping : worker.Looping cfg db)
    (keys : (db.stories.map fun row => row.id).Nodup) {events : List WorkerEvent}
    (quiet : Along (Worker.step cfg py) Worker.Quiet worker events) :
    (Foundation.run (Worker.step cfg py) worker events).Looping cfg db ∧
      (Foundation.run (Worker.step cfg py) worker events).db.scoreOf =
        Foundation.run (revise (rescore cfg db)) worker.db.scoreOf
          (worker.written cfg py events) := by
  induction events generalizing worker with
  | nil => exact ⟨looping, rfl⟩
  | cons event rest ih =>
    obtain ⟨next, wrote⟩ := looping.step keys quiet.1
    obtain ⟨last, scores⟩ := ih next quiet.2
    rw [Worker.written, run_append, ← wrote]
    exact ⟨last, scores⟩

/-- The Stories written in rounds of events. -/
theorem Worker.Looping.rounds (looping : worker.Looping cfg db)
    (keys : (db.stories.map fun row => row.id).Nodup) {rounds : List (List WorkerEvent)}
    {scope : Finset Uuid}
    (quiet : Along (Worker.step cfg py) Worker.Quiet worker rounds.flatten)
    (covered : Along (Foundation.run (Worker.step cfg py)) (fun worker round =>
      Covers scope (worker.written cfg py round)) worker rounds) :
    ∃ written : List (List Uuid), written.length = rounds.length ∧
      (∀ round ∈ written, Covers scope round) ∧
        (Foundation.run (Worker.step cfg py) worker rounds.flatten).db.scoreOf =
          Foundation.run (revise (rescore cfg db)) worker.db.scoreOf written.flatten := by
  induction rounds generalizing worker with
  | nil => exact ⟨[], rfl, by simp, rfl⟩
  | cons round rest ih =>
    rw [List.flatten_cons] at quiet ⊢
    obtain ⟨here, later⟩ := along_append.mp quiet
    obtain ⟨next, scores⟩ := looping.run keys here
    obtain ⟨written, length, covers, final⟩ := ih next later covered.2
    refine ⟨worker.written cfg py round :: written, by simp [length], ?_, ?_⟩
    · rintro other (_ | ⟨_, member⟩)
      · exact covered.1
      · exact covers other member
    · rw [run_append, final, scores, List.flatten_cons, run_append]

/-- The event writes no score out of scope. -/
def Worker.Within (scope : Finset Uuid) (worker : Worker) (event : WorkerEvent) : Prop :=
  ∀ id ∈ worker.writes event, id ∈ scope

theorem along_within {scope : Finset Uuid} {events : List WorkerEvent}
    (within : ∀ id ∈ worker.written cfg py events, id ∈ scope) :
    Along (Worker.step cfg py) (Worker.Within scope) worker events := by
  induction events generalizing worker with
  | nil => trivial
  | cons event rest ih =>
    refine ⟨fun id writes => within id ?_, ih fun id later => within id ?_⟩
    · exact List.mem_append_left _ (Option.mem_toList.mpr writes)
    · exact List.mem_append_right _ later

theorem along_within_rounds {scope : Finset Uuid} {rounds : List (List WorkerEvent)}
    (covered : Along (Foundation.run (Worker.step cfg py)) (fun worker round =>
      Covers scope (worker.written cfg py round)) worker rounds) :
    Along (Worker.step cfg py) (Worker.Within scope) worker rounds.flatten := by
  induction rounds generalizing worker with
  | nil => trivial
  | cons round rest ih =>
    rw [List.flatten_cons, along_append]
    exact ⟨along_within covered.1.1, ih covered.2⟩

/-- A step of a loop whose scores are not too high raises them, if anything. -/
theorem Worker.Looping.rises (looping : worker.Looping cfg db)
    (weight : 0 ≤ cfg.inauth.wLowRep) (keys : (db.stories.map fun row => row.id).Nodup)
    {scope : Finset Uuid} (rising : Rising (rescore cfg db) scope worker.db.scoreOf)
    {event : WorkerEvent} (quiet : worker.Quiet event) (within : worker.Within scope event) :
    Rising (rescore cfg db) scope (worker.step cfg py event).db.scoreOf ∧
      worker.db.scoreOf ≤ (worker.step cfg py event).db.scoreOf := by
  rw [(looping.step keys quiet).2]
  apply rising.along (monotone_rescore weight db)
  exact fun id writes => within id (Option.mem_toList.mp writes)

theorem looping_idle (db : Tables) : Worker.Looping cfg db { db } where
  window := .refl db
  counted := ⟨{}, trivial, by simp, by simp, by simp, by simp⟩

end Looping

/-- While the window stays as it is and no score in scope is too high for it, scores do not
fall. Once every Story in scope was written in one round more than there are Stories, they
are the least ones that another cycle would not change, in whatever order and over however
many cycles the Stories were scored. -/
theorem reputation_settles {cfg : Config} {py : Python} {db : Tables} {scope : Finset Uuid}
    {rounds : List (List WorkerEvent)} (weight : 0 ≤ cfg.inauth.wLowRep)
    (keys : (db.stories.map fun row => row.id).Nodup)
    (rising : Rising (rescore cfg db) scope db.scoreOf)
    (quiet : Along (Worker.step cfg py) Worker.Quiet { db } rounds.flatten)
    (covered : Along (run (Worker.step cfg py)) (fun worker round =>
      Covers scope (worker.written cfg py round)) { db } rounds) :
    Along (Worker.step cfg py) (fun worker event =>
        worker.db.scoreOf ≤ (worker.step cfg py event).db.scoreOf) { db } rounds.flatten ∧
      (scope.card < rounds.length → IsLeast (settlements (rescore cfg db) scope db.scoreOf)
        (run (Worker.step cfg py) { db } rounds.flatten).db.scoreOf) := by
  have idle : Worker.Looping cfg db { db } := looping_idle db
  have monotone := monotone_rescore weight db
  constructor
  · refine (quiet.and (along_within_rounds covered)).consequence
      (fun worker => worker.Looping cfg db ∧ Rising (rescore cfg db) scope worker.db.scoreOf)
      ⟨idle, rising⟩ ?_ ?_
    · rintro worker event ⟨looping, low⟩ ⟨still, within⟩
      exact ⟨(looping.step keys still).1, (looping.rises weight keys low still within).1⟩
    · rintro worker event ⟨looping, low⟩ ⟨still, within⟩
      exact (looping.rises weight keys low still within).2
  · intro many
    obtain ⟨written, length, covers, final⟩ := idle.rounds keys quiet covered
    rw [final]
    apply rising.isLeast monotone
    · intro id member
      obtain ⟨round, listed, inside⟩ := List.mem_flatten.mp member
      exact (covers round listed).1 id inside
    · apply rising.settles (marked_rescore cfg db) monotone covers
      have few := Finset.card_filter_le scope fun id =>
        ¬ cfg.inauth.flagThreshold ≤ db.scoreOf id
      rw [length]
      exact few.trans_lt many

/-- Five posts of one author in a Story, this far apart. -/
def flood (storyId : Uuid) (apart : Int) : List ItemRow :=
  (List.range 5).map fun i =>
    { post (storyId * 10 + i) "a" (i * apart) with storyId := some storyId }

/-- Each post is a copy of the one before it. -/
def copies (storyId : Uuid) : List EdgeRow :=
  (List.range 5).map fun i => ⟨storyId, storyId * 10 + i + 1, storyId * 10 + i, .copy, 0⟩

def floodStory (id : Uuid) (lastSeen : Int) : ScoredStory :=
  { id, firstSeen := 0, lastSeen, entitySet := {"bridge"}, sourceSet := {"mastodon"},
    independentOrigins := 1, centroid := none }

/-- A Story flooded all at once, and one flooded slowly by the same author. -/
def floods : Tables where
  clock := 0
  stories := [floodStory 1 0, floodStory 2 1]
  items := flood 1 0 ++ flood 2 600000000
  provenanceEdges := copies 1 ++ copies 2

def cycleEvents : List WorkerEvent := .start 0 :: List.replicate 15 .advance

/-- The first cycle flags the fast flood, the second one the slow flood for its author. -/
theorem reputation_settles_floods :
    (run (Worker.step {} .plain) { db := floods } cycleEvents).db.stories.map
        ScoredStory.inauthenticity = [37 / 50, 27 / 50] ∧
      (run (Worker.step {} .plain) { db := floods }
        (List.replicate 3 cycleEvents).flatten).db.stories.map ScoredStory.inauthenticity =
          [47 / 50, 37 / 50] ∧
      IsLeast (settlements (rescore {} floods) {1, 2} floods.scoreOf)
        (run (Worker.step {} .plain) { db := floods }
          (List.replicate 3 cycleEvents).flatten).db.scoreOf := by
  refine ⟨by decide +kernel, by decide +kernel,
    (reputation_settles ?_ ?_ ?_ ?_ ?_).2 (by decide)⟩
  · decide +kernel
  · decide
  · decide +kernel
  · apply along_of_mem
    intro event member worker
    cases event with
    | change db => simp [cycleEvents] at member
    | _ => trivial
  · decide +kernel

end NewsAggregator.Score
