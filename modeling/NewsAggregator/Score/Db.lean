import NewsAggregator.Enrich.Db
import NewsAggregator.Notify.Notifier
import NewsAggregator.Schema.Tables
import NewsAggregator.Score.Inauth

/-! The statements of the score worker against its tables. Each of them commits on its
own, at a time of the database clock. -/

namespace NewsAggregator.Score

open Enrich Foundation Notify

/-- A row of `stories` with its score columns. -/
structure ScoredStory extends StoryRow where
  velocityZ : ℚ := 0
  mainstreamPresence : ℚ := 0
  gap : ℚ := 0
  inauthenticity : ℚ := 0

/-- The health beat of the worker. -/
structure ScoreState where
  baselineWarming : Bool
  storiesScored : ℕ
  storiesFlaggedInauthentic : ℕ
  alertsRaised : ℕ
  lastRun : Int

/-- The tables the worker reads and writes, and `now()`. -/
structure Tables where
  clock : Int
  stories : List ScoredStory := []
  items : List ItemRow := []
  provenanceEdges : List EdgeRow := []
  entityTallies : List TallyRow := []
  alerts : List Alert := []
  systemState : List (String × ScoreState) := []

/-- What `_ACTIVE_STORIES` selects of a row. -/
structure ActiveStory where
  id : Uuid
  firstSeen : Int
  entitySet : Finset String
  trustState : TrustState
  independentOrigins : ℕ

inductive ScoreStmt : Type → Type where
  | earliestBucket (baseline : Int) : ScoreStmt (Option Int)
  | activeStories (window : Int) (limit : ℕ) : ScoreStmt (List ActiveStory)
  | mentionSeries (entities : Finset String) (since binWidth : Int) : ScoreStmt (List (Int × ℚ))
  | mainstreamCount (storyId : Uuid) : ScoreStmt ℕ
  | inauthSync (storyId : Uuid) (syncWindow : Int) : ScoreStmt (ℕ × ℕ)
  | inauthCopyEdges (storyId : Uuid) : ScoreStmt ℕ
  | inauthLowRep (storyId : Uuid) (flagThreshold : ℚ) (repMinItems : ℕ) (repBadShare : ℚ) :
      ScoreStmt ℕ
  | updateScores (storyId : Uuid) (velocityZ mainstreamPresence gap inauthenticity : ℚ) :
      ScoreStmt Unit
  | insertAlert (storyId : Uuid) (gap velocityZ : ℚ) (trustState : TrustState) (cooldown : Int) :
      ScoreStmt (Option Bool)
  | upsertSystemState (key : String) (value : ScoreState) : ScoreStmt Unit

namespace Tables

def earliestBucket (db : Tables) (baseline : Int) : Option Int :=
  ((db.entityTallies.filter fun row => db.clock - baseline < row.bucketTs).map
    TallyRow.bucketTs).min?

def activeStories (db : Tables) (window : Int) (limit : ℕ) : List ActiveStory :=
  let rows := db.stories.filter fun row => db.clock - window < row.lastSeen ∧ row.entitySet ≠ ∅
  let sorted := rows.insertionSort fun first second => second.lastSeen ≤ first.lastSeen
  (sorted.take limit).map fun row =>
    ⟨row.id, row.firstSeen, row.entitySet, row.trustState, row.independentOrigins⟩

/-- `date_bin` at the epoch. -/
def dateBin (binWidth ts : Int) : Int := ts / binWidth * binWidth

def mentionSeries (db : Tables) (entities : Finset String) (since binWidth : Int) :
    List (Int × ℚ) :=
  let rows := db.entityTallies.filter fun row => row.entity ∈ entities ∧ since < row.bucketTs
  let bins := (rows.map fun row => dateBin binWidth row.bucketTs).dedup.insertionSort (· ≤ ·)
  bins.map fun bin =>
    (bin, ((rows.filter fun row => dateBin binWidth row.bucketTs = bin).map
      fun row => (row.mentions : ℚ)).sum)

/-- The items of a Story of one class. -/
def storyItems (db : Tables) (storyId : Uuid) (sourceClass : SourceClass) : List ItemRow :=
  db.items.filter fun row => row.storyId = some storyId ∧ row.item.sourceClass = sourceClass

def mainstreamCount (db : Tables) (storyId : Uuid) : ℕ :=
  (db.storyItems storyId .mainstream).length

/-- The rows within the window of the row before (`lag`) or after (`lead`) them. -/
def synced (window : Int) : Option Int → List Int → ℕ
  | _, [] => 0
  | prev, ts :: rest =>
    (if (∃ before ∈ prev, ts - before ≤ window) ∨ (∃ after ∈ rest.head?, after - ts ≤ window)
      then 1 else 0) + synced window (some ts) rest

/-- `_INAUTH_SYNC`. -/
def inauthSync (db : Tables) (storyId : Uuid) (syncWindow : Int) : ℕ × ℕ :=
  let observed := (db.storyItems storyId .social).map fun row => row.item.tsObserved.instant
  (observed.length, synced syncWindow none (observed.insertionSort (· ≤ ·)))

/-- `_INAUTH_COPY_EDGES`. -/
def inauthCopyEdges (db : Tables) (storyId : Uuid) : ℕ :=
  db.provenanceEdges.countP fun row =>
    row.storyId = storyId ∧ (row.edgeType = .copy ∨ row.edgeType = .author)

/-- The social items of an author, each with the stories it is in: `LEFT JOIN`. -/
def judged (db : Tables) (authorRef : String) : List (Option ScoredStory) :=
  (db.items.filter fun row =>
    row.item.sourceClass = .social ∧ row.item.authorRef = authorRef).flatMap fun row =>
      let joined := db.stories.filter fun story => row.storyId = some story.id
      if joined.isEmpty then [none] else joined.map some

def lowReputation (db : Tables) (flagThreshold : ℚ) (repMinItems : ℕ) (repBadShare : ℚ)
    (authorRef : String) : Bool :=
  let rows := db.judged authorRef
  let bad := rows.countP fun story => story.any fun story => flagThreshold ≤ story.inauthenticity
  repMinItems ≤ rows.length ∧ repBadShare ≤ (bad : ℚ) / rows.length

/-- `_INAUTH_LOW_REP`. -/
def inauthLowRep (db : Tables) (storyId : Uuid) (flagThreshold : ℚ) (repMinItems : ℕ)
    (repBadShare : ℚ) : ℕ :=
  let authored := (db.storyItems storyId .social).filter fun row => row.item.authorRef ≠ ""
  let authors := (authored.map fun row => row.item.authorRef).dedup
  ((authors.filter (db.lowReputation flagThreshold repMinItems repBadShare)).map fun authorRef =>
    authored.countP fun row => row.item.authorRef = authorRef).sum

def updateScores (db : Tables) (storyId : Uuid)
    (velocityZ mainstreamPresence gap inauthenticity : ℚ) : Tables :=
  { db with stories := db.stories.map fun row =>
      if row.id = storyId then
        { row with velocityZ, mainstreamPresence, gap, inauthenticity }
      else row }

/-- `_INSERT_ALERT`, and whether a row landed; `none` where its key is taken. -/
def insertAlert (db : Tables) (alert : Alert) (cooldown : Int) : Option Bool × Tables :=
  if db.alerts.any fun row => row.storyId = alert.storyId ∧ db.clock - cooldown < row.ts then
    (some false, db)
  else if db.alerts.any fun row => row.key = alert.key then (none, db)
  else (some true, { db with alerts := db.alerts ++ [alert] })

def upsertSystemState (db : Tables) (key : String) (value : ScoreState) : Tables :=
  { db with systemState := (key, value) :: db.systemState.filter fun entry => entry.1 ≠ key }

end Tables

def exec : Semantics ScoreStmt Tables
  | _, .earliestBucket baseline, db => (db.earliestBucket baseline, db)
  | _, .activeStories window limit, db => (db.activeStories window limit, db)
  | _, .mentionSeries entities since binWidth, db => (db.mentionSeries entities since binWidth, db)
  | _, .mainstreamCount storyId, db => (db.mainstreamCount storyId, db)
  | _, .inauthSync storyId syncWindow, db => (db.inauthSync storyId syncWindow, db)
  | _, .inauthCopyEdges storyId, db => (db.inauthCopyEdges storyId, db)
  | _, .inauthLowRep storyId flagThreshold repMinItems repBadShare, db =>
    (db.inauthLowRep storyId flagThreshold repMinItems repBadShare, db)
  | _, .updateScores storyId velocityZ mainstreamPresence gap inauthenticity, db =>
    ((), db.updateScores storyId velocityZ mainstreamPresence gap inauthenticity)
  | _, .insertAlert storyId gap velocityZ trustState cooldown, db =>
    db.insertAlert ⟨storyId, db.clock, gap, velocityZ, trustState⟩ cooldown
  | _, .upsertSystemState key value, db => ((), db.upsertSystemState key value)

end NewsAggregator.Score
