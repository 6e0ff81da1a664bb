import Mathlib.Data.Prod.Lex
import NewsAggregator.Foundation.LastGood
import NewsAggregator.Foundation.Limit
import NewsAggregator.Score.Db

/-! The read API's lists, which keep answering with the last copy while the database
is away: what a client of a feed tab is shown over a whole run of requests. -/

namespace NewsAggregator.Api

open Foundation Notify Score

def maxLimit : Int := 200

/-- The settings of the environment, in microseconds. -/
structure Config where
  feedWindow : Int := 48 * 3600000000
  sparkWindow : Int := 24 * 3600000000
  sparkBin : Int := 15 * 60000000

/-- The dictionary `_story_row` builds. -/
structure StoryView where
  id : Uuid
  firstSeen : Int
  lastSeen : Int
  entitySet : Finset String
  sourceSet : Finset String
  independentOrigins : ℕ
  trustState : TrustState
  velocityZ : ℚ
  mainstreamPresence : ℚ
  inauthenticity : ℚ
  gap : ℚ
  itemCount : Option ℕ

def storyRow (row : ScoredStory) (itemCount : Option ℕ) : StoryView where
  id := row.id
  firstSeen := row.firstSeen
  lastSeen := row.lastSeen
  entitySet := row.entitySet
  sourceSet := row.sourceSet
  independentOrigins := row.independentOrigins
  trustState := row.trustState
  velocityZ := row.velocityZ
  mainstreamPresence := row.mainstreamPresence
  inauthenticity := row.inauthenticity
  gap := row.gap
  itemCount := itemCount

structure AlertView where
  storyId : Uuid
  ts : Int
  gap : ℚ
  velocityZ : ℚ
  trustState : TrustState
  entitySet : Finset String

section Queries

/-- `source_set ? 'noaa'`. -/
def weather (story : ScoredStory) : Bool := "noaa" ∈ story.sourceSet

/-- The condition of each of `STORY_QUERIES`, but for the window they share. -/
def storyQueries : List (String × (ScoredStory → Bool)) :=
  [("gap", fun story => !weather story),
    ("corroborated", fun story => story.trustState = .corroborated && !weather story),
    ("primary", fun story => story.trustState = .primaryBacked && !weather story),
    ("weather", weather)]

/-- `ORDER BY s.gap DESC, s.last_seen DESC`. -/
def rankOf (story : ScoredStory) : ℚ ×ₗ Int := toLex (story.gap, story.lastSeen)

/-- The rows a query is about, before its limit. -/
def eligible (db : Tables) (window : Int) (sort : String) : List ScoredStory :=
  let chosen := (storyQueries.lookup sort).getD fun story => !weather story
  db.stories.filter fun story => db.clock - window < story.lastSeen && chosen story

/-- The first rows in an order, where the server refuses a negative limit. -/
def limited {α : Type} (before : α → α → Prop) [DecidableRel before] (limit : Int)
    (rows : List α) : Option (List α) :=
  if limit < 0 then none else some ((rows.insertionSort before).take limit.toNat)

/-- `ReadDb.stories`. -/
def readStories (db : Tables) (window limit : Int) (sort : String) : Option (List ScoredStory) :=
  limited (fun first second => rankOf second ≤ rankOf first) limit (eligible db window sort)

def itemCount (db : Tables) (story : ScoredStory) : ℕ :=
  db.items.countP fun row => row.storyId = some story.id

/-- `ReadDb.alerts`, each alert with the entities of its Story: `LEFT JOIN`. -/
def readAlerts (db : Tables) (window limit : Int) : Option (List (Alert × Option ScoredStory)) :=
  let joined := (db.alerts.filter fun alert => db.clock - window < alert.ts).flatMap fun alert =>
    let found := db.stories.filter fun story => story.id = alert.storyId
    if found.isEmpty then [(alert, none)] else found.map fun story => (alert, some story)
  limited (fun first second => second.1.ts ≤ first.1.ts) limit joined

end Queries

/-- The list endpoints. -/
inductive Request
  | stories (limit : Int) (sort : String)
  | alerts (limit : Int)

inductive Payload
  | stories (rows : List StoryView)
  | alerts (rows : List AlertView)

/-- `sort if sort in STORY_QUERIES else "gap"`. -/
def tabOf (sort : String) : String :=
  if sort ∈ storyQueries.map Prod.fst then sort else "gap"

/-- The key of the copy an endpoint keeps. -/
def Request.key : Request → String
  | .stories _ sort => "stories:" ++ tabOf sort
  | .alerts _ => "alerts"

/-- The `fetch` of an endpoint; `none` where it raises. -/
def Request.fetch (cfg : Config) (db : Tables) : Request → Option Payload
  | .stories limit sort =>
    (readStories db cfg.feedWindow (min limit maxLimit) (tabOf sort)).map fun rows =>
      .stories (rows.map fun row => storyRow row (some (itemCount db row)))
  | .alerts limit =>
    (readAlerts db cfg.feedWindow (min limit maxLimit)).map fun rows =>
      .alerts (rows.map fun (alert, story) => ⟨alert.storyId, alert.ts, alert.gap, alert.velocityZ,
        alert.trustState, story.elim ∅ fun row => row.entitySet⟩)

/-- A request and the database its fetch saw, in the order the fetches ended; `none`
where it could not be reached. -/
abbrev Turn := Request × Option Tables

def Turn.read (cfg : Config) (turn : Turn) : String × Option Payload :=
  (turn.1.key, turn.2.bind fun db => turn.1.fetch cfg db)

/-- What `_degradable` answers after the earlier requests: fresh data, a copy flagged
`db_degraded`, or status 503. -/
def degradable (cfg : Config) (earlier : List Turn) (turn : Turn) : Answer Payload :=
  answerOf (run keepGood (fun _ => none) (earlier.map (Turn.read cfg))) (turn.read cfg)

/-- The fetch of a turn cannot answer. -/
def Turn.Fails : Turn → Prop
  | (.stories limit _, db) => db = none ∨ limit < 0
  | (.alerts limit, db) => db = none ∨ limit < 0

/-- Rows of a tab at a moment: the best of its Stories in the window, as many as asked
for and no more than the cap, and weather on its own tab only. -/
structure Feed (cfg : Config) (db : Tables) (limit : Int) (tab : String)
    (rows : List StoryView) : Prop where
  ranked : ∃ stories,
    Top rankOf (min limit maxLimit).toNat (eligible db cfg.feedWindow tab) stories ∧
    rows = stories.map fun row => storyRow row (some (itemCount db row))
  capped : (rows.length : Int) ≤ maxLimit
  weather : ∀ row ∈ rows, "noaa" ∈ row.sourceSet ↔ tab = "weather"

/-- What a request for a tab is shown after the earlier requests. -/
structure FeedServed (cfg : Config) (earlier : List Turn) (limit : Int) (tab : String)
    (db : Option Tables) (answer : Answer Payload) : Prop where
  fresh : ∀ payload, answer = .fresh payload →
    ∃ now ∈ db, 0 ≤ limit ∧ ∃ rows, payload = .stories rows ∧ Feed cfg now limit tab rows
  stale : ∀ payload, answer = .stale payload → (db = none ∨ limit < 0) ∧
    ∃ before asked sort now after rows, payload = .stories rows ∧
      earlier = before ++ (.stories asked sort, some now) :: after ∧ tabOf sort = tab ∧
      Feed cfg now asked tab rows ∧ ∀ turn ∈ after, turn.1.key = "stories:" ++ tab → Turn.Fails turn
  unavailable : answer = .unavailable ↔ (db = none ∨ limit < 0) ∧
    ∀ turn ∈ earlier, turn.1.key = "stories:" ++ tab → Turn.Fails turn

section Reads

variable {cfg : Config} {db : Tables} {limit : Int} {sort : String}

theorem fetch_eq_none {turn : Turn} : (turn.read cfg).2 = none ↔ turn.Fails := by
  obtain ⟨request, _ | db⟩ := turn
  · cases request <;> simp [Turn.read, Turn.Fails]
  · have negative (limit : Int) : min limit maxLimit < 0 ↔ limit < 0 := by
      simp [maxLimit]
    cases request <;>
      simp [Turn.read, Turn.Fails, Request.fetch, readStories, readAlerts, limited, negative]

/-- The tab of a request is one of the four. -/
theorem tabOf_cases (sort : String) : tabOf sort = "gap" ∨ tabOf sort = "corroborated" ∨
    tabOf sort = "primary" ∨ tabOf sort = "weather" := by
  rw [tabOf]
  split
  · rename_i member
    simpa [storyQueries] using member
  · exact .inl rfl

theorem mem_eligible_weather {story : ScoredStory}
    (member : story ∈ eligible db cfg.feedWindow (tabOf sort)) :
    "noaa" ∈ story.sourceSet ↔ tabOf sort = "weather" := by
  obtain ⟨_, chosen⟩ := List.mem_filter.mp member
  have chosen := (Bool.and_eq_true_iff.mp chosen).2
  rcases tabOf_cases sort with tab | tab | tab | tab <;>
    simp_all [storyQueries, List.lookup_cons, weather]

theorem fetch_stories {payload : Payload}
    (found : (Request.stories limit sort).fetch cfg db = some payload) :
    ∃ rows, payload = .stories rows ∧ Feed cfg db limit (tabOf sort) rows := by
  obtain ⟨stories, read, rfl⟩ := Option.map_eq_some_iff.mp found
  rw [readStories, limited] at read
  split at read
  · cases read
  · have top := top_take rankOf (min limit maxLimit).toNat (eligible db cfg.feedWindow (tabOf sort))
    rw [Option.some.inj read] at top
    refine ⟨_, rfl, ⟨stories, top, rfl⟩, ?_, fun row member => ?_⟩
    · have length := top.length
      rw [List.length_map]
      simp only [maxLimit] at length ⊢
      omega
    · obtain ⟨story, shown, rfl⟩ := List.mem_map.mp member
      exact mem_eligible_weather (top.subset shown)

/-- Only a request for the same tab keeps its copy under the key. -/
theorem key_eq {request : Request} (same : request.key = "stories:" ++ tabOf sort) :
    ∃ asked other, request = .stories asked other ∧ tabOf other = tabOf sort := by
  cases request with
  | stories asked other =>
    have tabs := congrArg String.toList same
    simp only [Request.key, String.toList_append, List.append_cancel_left_eq] at tabs
    exact ⟨asked, other, rfl, String.toList_inj.mp tabs⟩
  | alerts asked =>
    have apart : ∀ tab, "alerts" ≠ "stories:" ++ tab := by
      intro tab equal
      have first := congrArg (fun text => text.toList.head?) equal
      simp at first
    exact absurd same (apart _)

/-- The last read of a tab that worked, as a turn. -/
theorem lastGood_turn {earlier : List Turn} {payload : Payload}
    (last : LastGood (earlier.map (Turn.read cfg)) ("stories:" ++ tabOf sort) payload) :
    ∃ before asked other now after rows, payload = .stories rows ∧
      earlier = before ++ (.stories asked other, some now) :: after ∧ tabOf other = tabOf sort ∧
      Feed cfg now asked (tabOf sort) rows ∧
      ∀ turn ∈ after, turn.1.key = "stories:" ++ tabOf sort → Turn.Fails turn := by
  obtain ⟨before, after, split, failed⟩ := last.split
  obtain ⟨before, rest, rfl, rfl, tail⟩ := List.map_eq_append_iff.mp split
  obtain ⟨turn, after, rfl, own, rfl⟩ := List.map_eq_cons_iff.mp tail
  obtain ⟨request, db⟩ := turn
  obtain ⟨key, found⟩ := Prod.mk.inj own
  obtain ⟨asked, other, rfl, tab⟩ := key_eq key
  obtain ⟨now, rfl, fetched⟩ := Option.bind_eq_some_iff.mp found
  obtain ⟨rows, rfl, feed⟩ := fetch_stories fetched
  refine ⟨before, asked, other, now, after, rows, rfl, rfl, tab, tab ▸ feed, ?_⟩
  intro turn member key
  exact fetch_eq_none.mp (failed _ (List.mem_map_of_mem member) key)

end Reads

end NewsAggregator.Api
