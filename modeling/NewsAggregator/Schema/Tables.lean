import Mathlib.Data.Finset.Basic
import Mathlib.Order.WithBot
import NewsAggregator.Schema.Claim
import NewsAggregator.Schema.Story
import NewsAggregator.Trust.Edges

/-! The tables of `schema.sql` that clustering and trust read and write, with
the columns they use. A `timestamptz` is an instant in microseconds. -/

namespace NewsAggregator

/-- What the services call in the database server. -/
structure Postgres where
  lower : String → String
  /-- `1 - (a <=> b)`; `⊥` is NaN, which sorts last. -/
  similarity : Embedding → Embedding → WithBot ℚ

/-- A row of `items`; the last three columns belong to the cluster service. -/
structure ItemRow where
  item : Item
  embedding : Option Embedding
  exploration : Bool := false
  storyId : Option Uuid := none
  simhash : Option Int := none
  wireRef : String := ""

/-- The primary key `(id, ts_observed)`. -/
def Item.key (item : Item) : Uuid × Int := (item.id, item.tsObserved.instant)

def ItemRow.key (row : ItemRow) : Uuid × Int := row.item.key

structure StoryRow where
  id : Uuid
  firstSeen : Int
  lastSeen : Int
  entitySet : Finset String
  sourceSet : Finset String
  independentOrigins : Nat
  trustState : TrustState := .rumor
  centroid : Option Embedding

/-- A row of `provenance_edges`; all columns are its primary key. -/
structure EdgeRow where
  storyId : Uuid
  srcItem : Uuid
  dstItem : Uuid
  edgeType : Trust.EdgeType
  tsObserved : Int
  deriving DecidableEq

/-- The three tables and the queue `llm.heavy`. -/
structure Store where
  items : List ItemRow := []
  stories : List StoryRow := []
  provenanceEdges : List EdgeRow := []
  heavy : List ClaimRequest := []

/-- The rows with the story's id. -/
def Store.members (store : Store) (storyId : Uuid) : List ItemRow :=
  store.items.filter fun row => row.storyId = some storyId

def Store.storyRow (store : Store) (storyId : Uuid) : Option StoryRow :=
  store.stories.find? fun row => row.id = storyId

end NewsAggregator
