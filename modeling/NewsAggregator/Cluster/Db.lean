import Mathlib.Data.List.Sort
import NewsAggregator.Cluster.Cluster
import NewsAggregator.Foundation.Program
import NewsAggregator.Schema.Partitions

/-! The statements of the writer, cluster and trust services against the shared
tables. Each method of a database layer is one statement: it commits on its own. -/

namespace NewsAggregator.Cluster

open Trust Foundation

/-- The methods of `Db`, `ClusterDb` and `TrustDb`, and the publish on `llm.heavy`. -/
inductive Stmt : Type → Type where
  | insertItem (enriched : EnrichedItem) : Stmt Unit
  | nearest (vec : Embedding) (since : Int) (excludeId : Uuid) (k : Nat) : Stmt (List Neighbor)
  | assignItem (itemId : Uuid) (tsObserved : Int) (storyId : Uuid) (simhash : Int)
      (wire : String) : Stmt Bool
  | createStory (storyId : Uuid) (firstSeen : DateTime) (entitySet : Finset String)
      (source : String) (centroid : Embedding) : Stmt Unit
  | touchStory (storyId : Uuid) (lastSeen : Int) (source : String) (entitySet : Finset String) :
      Stmt Unit
  | storyProv (storyId : Uuid) : Stmt (List ItemRow)
  | insertEdges (storyId : Uuid) (edges : List (Uuid × Uuid × EdgeType)) (tsObserved : Int) :
      Stmt Unit
  | storyEdges (storyId : Uuid) : Stmt (List EdgeRow)
  | storyState (storyId : Uuid) : Stmt TrustState
  | updateTrust (storyId : Uuid) (origins : Nat) (state : TrustState) : Stmt Unit
  | publishHeavy (req : ClaimRequest) : Stmt Unit
  | claimItem (itemId : Uuid) : Stmt (Option ItemRow)
  | primaryCandidates (around window : Int) (entities : Finset String) (limit : Nat) :
      Stmt (List ItemRow)
  | promotePrimaryBacked (storyId : Uuid) : Stmt Unit

/-- The `WHERE` clause of `_NEAREST`. -/
def near (since : Int) (excludeId : Uuid) (row : ItemRow) : Bool :=
  row.storyId.isSome ∧ since ≤ row.item.tsObserved.instant ∧ row.item.id ≠ excludeId ∧
    row.embedding.isSome

def similarityTo (pg : Postgres) (vec : Embedding) (row : ItemRow) : WithBot ℚ :=
  row.embedding.elim ⊥ (pg.similarity · vec)

/-- The neighbour query. Its index is approximate: `surfaced` are the keys of the
rows it came upon, in the order that settles ties. -/
def nearest (pg : Postgres) (surfaced : List (Uuid × Int)) (store : Store) (vec : Embedding)
    (since : Int) (excludeId : Uuid) (k : Nat) : List ItemRow :=
  let rows := surfaced.dedup.filterMap fun key => store.items.find? fun row => row.key = key
  ((rows.filter (near since excludeId)).insertionSort fun a b =>
    similarityTo pg vec b ≤ similarityTo pg vec a).take k

/-- `_neighbors`: what the caller makes of the rows. -/
def neighbors (py : Python) (pg : Postgres) (vec : Embedding) (rows : List ItemRow) :
    List Neighbor :=
  rows.filterMap fun row => row.storyId.map fun storyId =>
    ⟨storyId, similarityTo pg vec row, entityTexts py row.item.entities⟩

/-- The writer's `INSERT`, where it finds its partition; the first row of a key stays. -/
def insertItem (store : Store) (enriched : EnrichedItem) : Store :=
  if store.items.any fun row => row.key = enriched.item.key then store
  else
    { store with items := store.items ++ [{
        item := enriched.item, embedding := some enriched.embedding,
        exploration := enriched.exploration }] }

def assignItem (store : Store) (key : Uuid × Int) (storyId : Uuid) (simhash : Int)
    (wire : String) : Store :=
  { store with items := store.items.map fun row =>
      if row.key = key then
        { row with storyId := some storyId, simhash := some simhash, wireRef := wire }
      else row }

/-- The `INSERT` of `create_story`, where it finds its partition. -/
def createStory (store : Store) (storyId : Uuid) (firstSeen : Int) (entitySet : Finset String)
    (source : String) (centroid : Embedding) : Store :=
  if store.stories.any fun row => row.id = storyId ∧ row.firstSeen = firstSeen then store
  else
    { store with stories := store.stories ++ [{
        id := storyId, firstSeen, lastSeen := firstSeen, entitySet, sourceSet := {source},
        independentOrigins := 1, centroid := some centroid }] }

def updateStory (store : Store) (storyId : Uuid) (change : StoryRow → StoryRow) : Store :=
  { store with stories := store.stories.map fun row =>
      if row.id = storyId then change row else row }

/-- The read and the update of `touch_story` are one transaction. -/
def touchStory (store : Store) (storyId : Uuid) (lastSeen : Int) (source : String)
    (entitySet : Finset String) : Store :=
  match store.storyRow storyId with
  | none => store
  | some row =>
    let sources := row.sourceSet ∪ {source}
    let entities := row.entitySet ∪ entitySet
    updateStory store storyId fun row => { row with
      lastSeen := max row.lastSeen lastSeen
      sourceSet := sources
      entitySet := entities }

def insertEdge (rows : List EdgeRow) (row : EdgeRow) : List EdgeRow :=
  if row ∈ rows then rows else rows ++ [row]

/-- `executemany` is atomic; here it finds its partition. -/
def insertEdges (store : Store) (storyId : Uuid) (edges : List (Uuid × Uuid × EdgeType))
    (tsObserved : Int) : Store :=
  let rows : List EdgeRow := edges.map fun (src, dst, edgeType) =>
    ⟨storyId, src, dst, edgeType, tsObserved⟩
  { store with provenanceEdges := rows.foldl insertEdge store.provenanceEdges }

def storyEdges (store : Store) (storyId : Uuid) : List EdgeRow :=
  store.provenanceEdges.filter fun row => row.storyId = storyId

/-- A missing row reads as a rumor. -/
def storyState (store : Store) (storyId : Uuid) : TrustState :=
  (store.storyRow storyId).elim .rumor StoryRow.trustState

def updateTrust (store : Store) (storyId : Uuid) (origins : Nat) (state : TrustState) : Store :=
  updateStory store storyId fun row =>
    { row with independentOrigins := origins, trustState := state }

def promotePrimaryBacked (store : Store) (storyId : Uuid) : Store :=
  updateStory store storyId fun row => { row with trustState := .primaryBacked }

def claimItem (store : Store) (itemId : Uuid) : Option ItemRow :=
  store.items.find? fun row => row.item.id = itemId

def primaryCandidates (pg : Postgres) (store : Store) (around window : Int)
    (entities : Finset String) (limit : Nat) : List ItemRow :=
  let rows := store.items.filter fun row =>
    (row.item.sourceClass = .authoritative ∨ row.item.sourceClass = .primary) ∧
      (around - window ≤ row.item.tsObserved.instant ∧
        row.item.tsObserved.instant ≤ around + window) ∧
      row.item.entities.any fun e => pg.lower e.text ∈ entities
  (rows.insertionSort fun a b => b.item.tsObserved.instant ≤ a.item.tsObserved.instant).take limit

/-- What a statement answers and writes. -/
def exec (py : Python) (pg : Postgres) (surfaced : List (Uuid × Int)) : Semantics Stmt Store
  | _, .nearest vec since excludeId k, store =>
    (neighbors py pg vec (nearest pg surfaced store vec since excludeId k), store)
  | _, .insertItem enriched, store => ((), insertItem store enriched)
  | _, .assignItem itemId tsObserved storyId simhash wire, store =>
    (store.items.any fun row => row.key = (itemId, tsObserved),
      assignItem store (itemId, tsObserved) storyId simhash wire)
  | _, .createStory storyId firstSeen entitySet source centroid, store =>
    ((), createStory store storyId firstSeen.instant entitySet source centroid)
  | _, .touchStory storyId lastSeen source entitySet, store =>
    ((), touchStory store storyId lastSeen source entitySet)
  | _, .storyProv storyId, store => (store.members storyId, store)
  | _, .insertEdges storyId edges tsObserved, store =>
    ((), insertEdges store storyId edges tsObserved)
  | _, .storyEdges storyId, store => (storyEdges store storyId, store)
  | _, .storyState storyId, store => (storyState store storyId, store)
  | _, .updateTrust storyId origins state, store => ((), updateTrust store storyId origins state)
  | _, .publishHeavy req, store => ((), { store with heavy := store.heavy ++ [req] })
  | _, .claimItem itemId, store => (claimItem store itemId, store)
  | _, .primaryCandidates around window entities limit, store =>
    (primaryCandidates pg store around window entities limit, store)
  | _, .promotePrimaryBacked storyId, store => ((), promotePrimaryBacked store storyId)

/-- The statements that fail because an `INSERT` finds no partition: of `stories` for a new
Story, of `provenance_edges` for some edges, whose time the server gave in UTC. -/
def misses (stories edges : Provision) : ∀ β, Stmt β → Store → Bool
  | _, .createStory _ firstSeen _ _ _, _ => !stories.places firstSeen
  | _, .insertEdges _ rows tsObserved, _ => !rows.isEmpty && !edges.places ⟨tsObserved, 0⟩
  | _, _, _ => false

section Frame

variable {store : Store}

theorem mem_nearest {pg : Postgres} {surfaced : List (Uuid × Int)} {vec : Embedding} {since : Int}
    {excludeId : Uuid} {k : Nat} {row : ItemRow}
    (member : row ∈ nearest pg surfaced store vec since excludeId k) :
    row ∈ store.items ∧ near since excludeId row := by
  have kept := List.mem_of_mem_take member
  rw [List.mem_insertionSort, List.mem_filter, List.mem_filterMap] at kept
  obtain ⟨⟨key, _, found⟩, holds⟩ := kept
  exact ⟨List.mem_of_find?_eq_some found, holds⟩

theorem mem_members {storyId : Uuid} {row : ItemRow} :
    row ∈ store.members storyId ↔ row ∈ store.items ∧ row.storyId = some storyId := by
  simp [Store.members]

theorem mem_foldl_insertEdge {rows stored : List EdgeRow} {edge : EdgeRow} :
    edge ∈ rows.foldl insertEdge stored ↔ edge ∈ stored ∨ edge ∈ rows := by
  induction rows generalizing stored with
  | nil => simp
  | cons row rest ih =>
    rw [List.foldl_cons, ih, insertEdge]
    split <;> grind

@[simp] theorem stories_insertItem (enriched : EnrichedItem) :
    (insertItem store enriched).stories = store.stories := by
  rw [insertItem]
  split <;> rfl

/-- A new item is in no Story. -/
@[simp] theorem members_insertItem (enriched : EnrichedItem) (storyId : Uuid) :
    (insertItem store enriched).members storyId = store.members storyId := by
  unfold insertItem Store.members
  split
  · rfl
  · simp

@[simp] theorem edges_insertItem (enriched : EnrichedItem) :
    (insertItem store enriched).provenanceEdges = store.provenanceEdges := by
  rw [insertItem]
  split <;> rfl

@[simp] theorem items_createStory (storyId : Uuid) (firstSeen : Int) (entitySet : Finset String)
    (source : String) (centroid : Embedding) :
    (createStory store storyId firstSeen entitySet source centroid).items = store.items := by
  rw [createStory]
  split <;> rfl

@[simp] theorem edges_createStory (storyId : Uuid) (firstSeen : Int) (entitySet : Finset String)
    (source : String) (centroid : Embedding) :
    (createStory store storyId firstSeen entitySet source centroid).provenanceEdges =
      store.provenanceEdges := by
  rw [createStory]
  split <;> rfl

@[simp] theorem items_touchStory (storyId : Uuid) (lastSeen : Int) (source : String)
    (entitySet : Finset String) :
    (touchStory store storyId lastSeen source entitySet).items = store.items := by
  rw [touchStory]
  split <;> rfl

@[simp] theorem edges_touchStory (storyId : Uuid) (lastSeen : Int) (source : String)
    (entitySet : Finset String) :
    (touchStory store storyId lastSeen source entitySet).provenanceEdges =
      store.provenanceEdges := by
  rw [touchStory]
  split <;> rfl

@[simp] theorem stories_assignItem (key : Uuid × Int) (storyId : Uuid) (simhash : Int)
    (wire : String) : (assignItem store key storyId simhash wire).stories = store.stories := rfl

/-- The first row of a Story after an update of its rows. -/
theorem storyRow_updateStory (storyId other : Uuid) {change : StoryRow → StoryRow}
    (keeps : ∀ row, (change row).id = row.id) :
    (updateStory store storyId change).storyRow other =
      (store.storyRow other).map fun row => if other = storyId then change row else row := by
  unfold updateStory Store.storyRow
  dsimp only
  induction store.stories with
  | nil => rfl
  | cons row rest ih =>
    rw [List.map_cons, List.find?_cons, List.find?_cons]
    have same : (if row.id = storyId then change row else row).id = row.id := by
      split
      · exact keeps row
      · rfl
    rw [same]
    by_cases own : row.id = other
    · simp [own]
    · simp only [own, decide_false]
      exact ih

@[simp] theorem ids_updateStory (storyId : Uuid) {change : StoryRow → StoryRow}
    (keeps : ∀ row, (change row).id = row.id) :
    (updateStory store storyId change).stories.map StoryRow.id = store.stories.map StoryRow.id := by
  rw [updateStory, List.map_map]
  apply List.map_congr_left
  intro row _
  simp only [Function.comp_apply]
  split
  · exact keeps row
  · rfl

theorem ids_touchStory (storyId : Uuid) (lastSeen : Int) (source : String)
    (entitySet : Finset String) :
    (touchStory store storyId lastSeen source entitySet).stories.map StoryRow.id =
      store.stories.map StoryRow.id := by
  rw [touchStory]
  split
  · rfl
  · exact ids_updateStory storyId fun _ => rfl

theorem storyRow_createStory_some {other storyId : Uuid} {row : StoryRow} {firstSeen : Int}
    {entitySet : Finset String} {source : String} {centroid : Embedding}
    (present : store.storyRow other = some row) :
    (createStory store storyId firstSeen entitySet source centroid).storyRow other = some row := by
  rw [createStory]
  split
  · exact present
  · unfold Store.storyRow at present ⊢
    rw [List.find?_append, present]
    rfl

theorem storyRow_createStory_other {other storyId : Uuid} {firstSeen : Int}
    {entitySet : Finset String} {source : String} {centroid : Embedding}
    (different : other ≠ storyId) :
    (createStory store storyId firstSeen entitySet source centroid).storyRow other =
      store.storyRow other := by
  rw [createStory]
  split
  · rfl
  · unfold Store.storyRow
    simp [List.find?_append, different.symm]

theorem storyRow_eq_none {storyId : Uuid} :
    store.storyRow storyId = none ↔ ∀ row ∈ store.stories, row.id ≠ storyId := by
  simp [Store.storyRow]

/-- A fresh id gets the row it was created with. -/
theorem storyRow_createStory_fresh {storyId : Uuid} {firstSeen : Int} {entitySet : Finset String}
    {source : String} {centroid : Embedding} (fresh : store.storyRow storyId = none) :
    (createStory store storyId firstSeen entitySet source centroid).storyRow storyId = some {
      id := storyId, firstSeen, lastSeen := firstSeen, entitySet, sourceSet := {source},
      independentOrigins := 1, centroid := some centroid } := by
  have absent : (store.stories.any fun row => row.id = storyId ∧ row.firstSeen = firstSeen) =
      false := by
    rw [List.any_eq_false]
    intro row member
    simp [storyRow_eq_none.mp fresh row member]
  rw [createStory]
  rw [absent]
  unfold Store.storyRow at fresh ⊢
  simp [List.find?_append, fresh]

/-- The first row of a Story after `touch_story`. -/
theorem storyRow_touchStory (storyId other : Uuid) (lastSeen : Int) (source : String)
    (entitySet : Finset String) :
    (touchStory store storyId lastSeen source entitySet).storyRow other =
      (store.storyRow other).map fun row =>
        if other = storyId then
          { row with
            lastSeen := max row.lastSeen lastSeen
            sourceSet := row.sourceSet ∪ {source}
            entitySet := row.entitySet ∪ entitySet }
        else row := by
  rw [touchStory]
  cases found : store.storyRow storyId with
  | none =>
    by_cases same : other = storyId
    · rw [same, found]
      rfl
    · simp [same]
  | some row =>
    dsimp only
    rw [storyRow_updateStory]
    · by_cases same : other = storyId
      · rw [same, found]
        simp
      · simp [same]
    · exact fun _ => rfl

@[simp] theorem storyState_createStory (storyId other : Uuid) (firstSeen : Int)
    (entitySet : Finset String) (source : String) (centroid : Embedding) :
    storyState (createStory store storyId firstSeen entitySet source centroid) other =
      storyState store other := by
  unfold storyState
  cases found : store.storyRow other with
  | some row => rw [storyRow_createStory_some found]
  | none =>
    by_cases same : other = storyId
    · subst same
      rw [storyRow_createStory_fresh found]
      rfl
    · rw [storyRow_createStory_other same, found]

@[simp] theorem storyState_touchStory (storyId other : Uuid) (lastSeen : Int) (source : String)
    (entitySet : Finset String) :
    storyState (touchStory store storyId lastSeen source entitySet) other =
      storyState store other := by
  unfold storyState
  rw [storyRow_touchStory]
  cases store.storyRow other with
  | none => rfl
  | some row =>
    simp only [Option.map_some, Option.elim_some]
    split <;> rfl

theorem storyRow_promotePrimaryBacked (storyId other : Uuid) :
    (promotePrimaryBacked store storyId).storyRow other = (store.storyRow other).map fun row =>
      if other = storyId then { row with trustState := .primaryBacked } else row :=
  storyRow_updateStory storyId other fun _ => rfl

end Frame

end NewsAggregator.Cluster
