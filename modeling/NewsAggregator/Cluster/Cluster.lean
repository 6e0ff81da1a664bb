import Mathlib.Algebra.Order.Ring.Unbundled.Rat
import NewsAggregator.Schema.Tables

/-! Online-clustering decisions: which Story an item joins, and what of a stored
row the provenance graph sees. -/

namespace NewsAggregator.Cluster

open Trust

/-- A scored candidate of the neighbour query, nearest first. -/
structure Neighbor where
  storyId : Uuid
  similarity : WithBot ℚ
  entityTexts : Finset String

/-- Case-folded surface forms, for the shared-entity test. -/
def entityTexts (py : Python) (entities : List Entity) : Finset String :=
  (entities.map fun e => py.casefold e.text).toFinset

/-- The Story of the nearest neighbour that clears the threshold and shares an
entity; `none` opens a new one. -/
def chooseStory (py : Python) (newEntities : Finset String) (neighbors : List Neighbor)
    (theta : ℚ) : Option Uuid :=
  let folded := newEntities.image py.casefold
  if folded = ∅ then none
  else
    (neighbors.find? fun n =>
      (theta : WithBot ℚ) ≤ n.similarity ∧ (folded ∩ n.entityTexts).Nonempty).map Neighbor.storyId

def isCandidate (independentOrigins : Nat) (threshold : Nat := 2) : Bool :=
  threshold ≤ independentOrigins

/-- The provenance node of a stored row. -/
def provNode (py : Python) (row : ItemRow) : ProvNode where
  itemId := row.item.id
  authorRef := row.item.authorRef
  parentRef := row.item.parentRef
  contentHash := row.item.contentHash
  urls := ((row.item.urls.map (canonicalUrl py)).filter (· ≠ "")).toFinset
  simhash := fromSigned64 (row.simhash.getD 0)
  source := row.item.source
  sourceClass := row.item.sourceClass.value
  wireRef := row.wireRef

/-- A social claim and an official record in one Story. -/
def inStoryPrimaryMatch (sourceClasses : List SourceClass) : Bool :=
  .social ∈ sourceClasses ∧ (.authoritative ∈ sourceClasses ∨ .primary ∈ sourceClasses)

/-- A chosen Story is one of the neighbours'. -/
theorem chooseStory_mem {py : Python} {newEntities : Finset String} {neighbors : List Neighbor}
    {theta : ℚ} {storyId : Uuid}
    (chosen : chooseStory py newEntities neighbors theta = some storyId) :
    ∃ neighbor ∈ neighbors, neighbor.storyId = storyId := by
  unfold chooseStory at chosen
  dsimp only at chosen
  split at chosen
  · cases chosen
  · obtain ⟨neighbor, found, same⟩ := Option.map_eq_some_iff.mp chosen
    exact ⟨neighbor, List.mem_of_find?_eq_some found, same⟩

end NewsAggregator.Cluster
