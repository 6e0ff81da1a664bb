import NewsAggregator.Cluster.Db
import NewsAggregator.Dedup.Simhash
import NewsAggregator.Trust.Graph
import NewsAggregator.Trust.States
import NewsAggregator.Trust.Wire

/-! `Clusterer.handle` as a program of committed statements, and what an attempt
leaves in the tables when it is cut off at any of them. -/

namespace NewsAggregator.Cluster

open Trust Dedup Foundation

structure Config where
  theta : ℚ := 82 / 100
  windowDays : Int := 2
  topk : Nat := 10
  corroborationN : Nat := defaultNCorroboration
  corroborationSources : Nat := minCorroborationSources

/-- What one call of the handler draws from its process: the clock and `uuid4`. -/
structure Draw where
  now : Int
  uuid4 : Uuid

/-- Microseconds of a day. -/
def day : Int := 86400000000

def provEdge (row : EdgeRow) : ProvEdge := ⟨row.srcItem, row.dstItem, row.edgeType⟩

def edgeTriple (edge : ProvEdge) : Uuid × Uuid × EdgeType := (edge.src, edge.dst, edge.edgeType)

/-- `_update_trust`: the provenance of a Story that just gained a member. -/
def updateTrustOf (py : Python) (cfg : Config) (storyId newItemId : Uuid) : Program Stmt Nat := do
  let rows ← .perform (.storyProv storyId)
  let nodes := rows.map (provNode py)
  match byId nodes newItemId with
  | none => return nodes.length
  | some newNode =>
    let found := detectEdges newNode nodes
    match rows.find? fun row => row.item.id = newItemId with
    | none => .raise
    | some row =>
      .perform (.insertEdges storyId (found.map edgeTriple) row.item.tsObserved.instant)
      let stored ← .perform (.storyEdges storyId)
      let edges := stored.map provEdge
      let origins := independentOrigins nodes edges
      let nSources := distinctOriginSources nodes edges
      let classes := rows.map fun row => row.item.sourceClass
      let current ← .perform (.storyState storyId)
      let state := nextState current origins nSources (inStoryPrimaryMatch classes)
        cfg.corroborationN cfg.corroborationSources
      .perform (.updateTrust storyId origins state)
      return origins

/-- `handle`. The item is assigned first, so that an item the writer has not
stored yet is retried before anything is written. -/
def handle (py : Python) (cfg : Config) (draw : Draw) (enriched : EnrichedItem) :
    Program Stmt Unit := do
  let item := enriched.item
  let newEnts := entityTexts py item.entities
  let since := draw.now - cfg.windowDays * day
  let rows ← .perform (.nearest enriched.embedding since item.id cfg.topk)
  let target := chooseStory py newEnts rows cfg.theta
  let storyId := target.getD draw.uuid4
  let sim := toSigned64 (simhash64 py item.text)
  let wire := wireRef py item.text
  let stored ← .perform (.assignItem item.id item.tsObserved.instant storyId sim wire)
  if !stored then .raise
  else
    let origins ← match target with
      | none => do
        .perform (.createStory storyId item.tsObserved newEnts item.source enriched.embedding)
        pure 1
      | some _ => do
        .perform (.touchStory storyId item.tsObserved.instant item.source newEnts)
        updateTrustOf py cfg storyId item.id
    if isCandidate origins then
      if textCap : item.text.length ≤ maxTextLen then
        .perform (.publishHeavy ⟨storyId, item.id, item.text, textCap⟩)
      else .raise
    else return ()

section Attempt

variable (py : Python) (pg : Postgres) (cfg : Config) (draw : Draw)
  (surfaced : List (Uuid × Int)) (enriched : EnrichedItem)

/-- The Story an attempt chooses from the rows the index surfaced. -/
def targetOf (store : Store) : Option Uuid :=
  chooseStory py (entityTexts py enriched.item.entities)
    (neighbors py pg enriched.embedding (nearest pg surfaced store enriched.embedding
      (draw.now - cfg.windowDays * day) enriched.item.id cfg.topk)) cfg.theta

def storyOf (store : Store) : Uuid :=
  (targetOf py pg cfg draw surfaced enriched store).getD draw.uuid4

/-- The item's row is stored. -/
def Stored (store : Store) (key : Uuid × Int) : Prop := ∃ row ∈ store.items, row.key = key

instance (store : Store) : DecidablePred (Stored store) :=
  fun key => inferInstanceAs (Decidable (∃ row ∈ store.items, row.key = key))

/-- The store after `assign_item`. -/
def assigned (store : Store) : Store :=
  assignItem store enriched.item.key (storyOf py pg cfg draw surfaced enriched store)
    (toSigned64 (simhash64 py enriched.item.text)) (wireRef py enriched.item.text)

/-- The store after `create_story`. -/
def created (store : Store) : Store :=
  createStory (assigned py pg cfg draw surfaced enriched store) draw.uuid4
    enriched.item.tsObserved.instant (entityTexts py enriched.item.entities) enriched.item.source
    enriched.embedding

/-- The store after `touch_story`. -/
def touched (storyId : Uuid) (store : Store) : Store :=
  touchStory (assigned py pg cfg draw surfaced enriched store) storyId
    enriched.item.tsObserved.instant enriched.item.source (entityTexts py enriched.item.entities)

def nodesOf (storyId : Uuid) (store : Store) : List ProvNode :=
  (store.members storyId).map (provNode py)

/-- The rows `_update_trust` inserts for a member: its edges to fellow members. -/
def newEdges (storyId itemId : Uuid) (store : Store) : List EdgeRow :=
  match byId (nodesOf py storyId store) itemId,
    (store.members storyId).find? (fun row => row.item.id = itemId) with
  | some newNode, some row =>
    (detectEdges newNode (nodesOf py storyId store)).map fun edge =>
      ⟨storyId, edge.src, edge.dst, edge.edgeType, row.item.tsObserved.instant⟩
  | _, _ => []

/-- The store after `insert_edges`. -/
def linked (storyId itemId : Uuid) (store : Store) : Store :=
  { store with
    provenanceEdges := (newEdges py storyId itemId store).foldl insertEdge store.provenanceEdges }

def originsOf (storyId : Uuid) (store : Store) : Nat :=
  independentOrigins (nodesOf py storyId store) ((storyEdges store storyId).map provEdge)

def sourcesOf (storyId : Uuid) (store : Store) : Nat :=
  distinctOriginSources (nodesOf py storyId store) ((storyEdges store storyId).map provEdge)

/-- The state the recount writes. -/
def stateOf (storyId : Uuid) (store : Store) : TrustState :=
  nextState (storyState store storyId) (originsOf py storyId store) (sourcesOf py storyId store)
    (inStoryPrimaryMatch ((store.members storyId).map fun row => row.item.sourceClass))
    cfg.corroborationN cfg.corroborationSources

/-- The store after the recount. -/
def counted (storyId : Uuid) (store : Store) : Store :=
  updateTrust store storyId (originsOf py storyId store) (stateOf py cfg storyId store)

/-- What an attempt leaves behind, one case for each statement it can stop at.
Only the last statement of a branch can end with or without an error. -/
inductive Leaves (cut : Option ℕ) (store : Store) : Option Unit → Store → Prop where
  | unchanged (early : Stored store enriched.item.key → ¬ Program.Reached cut 2) :
      Leaves cut store none store
  | assigned (stored : Stored store enriched.item.key) (reached : Program.Reached cut 2)
      (short : ¬ Program.Reached cut 3) :
      Leaves cut store none (assigned py pg cfg draw surfaced enriched store)
  | created (stored : Stored store enriched.item.key)
      (opens : targetOf py pg cfg draw surfaced enriched store = none)
      (reached : Program.Reached cut 3) (result : Option Unit) :
      Leaves cut store result (created py pg cfg draw surfaced enriched store)
  | touched (stored : Stored store enriched.item.key) {storyId : Uuid}
      (joins : targetOf py pg cfg draw surfaced enriched store = some storyId)
      (reached : Program.Reached cut 3) (short : ¬ Program.Reached cut 5) :
      Leaves cut store none (touched py pg cfg draw surfaced enriched storyId store)
  | linked (stored : Stored store enriched.item.key) {storyId : Uuid}
      (joins : targetOf py pg cfg draw surfaced enriched store = some storyId)
      (reached : Program.Reached cut 5) (short : ¬ Program.Reached cut 8) :
      Leaves cut store none (linked py storyId enriched.item.id
        (touched py pg cfg draw surfaced enriched storyId store))
  | counted (stored : Stored store enriched.item.key) {storyId : Uuid}
      (joins : targetOf py pg cfg draw surfaced enriched store = some storyId)
      (reached : Program.Reached cut 8) (result : Option Unit) (heavy : List ClaimRequest) :
      Leaves cut store result { counted py cfg storyId (linked py storyId enriched.item.id
        (touched py pg cfg draw surfaced enriched storyId store)) with heavy := heavy }

end Attempt

theorem Stored.any {store : Store} {item : Item} (stored : Stored store item.key) :
    (store.items.any fun row => row.key = (item.id, item.tsObserved.instant)) = true := by
  simpa [Stored, Item.key] using stored

/-- An assigned item is a visible member at once. -/
theorem exists_member {store : Store} {key : Uuid × Int} (stored : Stored store key)
    (storyId : Uuid) (simhash : Int) (wire : String) :
    ∃ row ∈ (assignItem store key storyId simhash wire).members storyId, row.key = key := by
  obtain ⟨row, member, same⟩ := stored
  refine ⟨{ row with storyId := some storyId, simhash := some simhash, wireRef := wire }, ?_, same⟩
  rw [mem_members]
  exact ⟨List.mem_map.mpr ⟨row, member, if_pos same⟩, rfl⟩

theorem assignItem_unstored {store : Store} {key : Uuid × Int} (unstored : ¬ Stored store key)
    (storyId : Uuid) (simhash : Int) (wire : String) :
    assignItem store key storyId simhash wire = store := by
  have same : store.items.map (fun row => if row.key = key then
      { row with storyId := some storyId, simhash := some simhash, wireRef := wire } else row) =
      store.items.map id :=
    List.map_congr_left fun row member => if_neg fun equal => unstored ⟨row, member, equal⟩
  rw [List.map_id] at same
  rw [assignItem]
  rw [same]

theorem exists_byId {nodes : List ProvNode} {id : Uuid} :
    (∃ node, byId nodes id = some node) ↔ id ∈ nodeIds nodes := by
  rw [byId]
  rw [← Option.isSome_iff_exists, List.find?_isSome, mem_nodeIds]
  simp

/-- A visible member has a provenance node. -/
theorem visible_node (py : Python) {store : Store} {storyId itemId : Uuid}
    (visible : ∃ row ∈ store.members storyId, row.item.id = itemId) :
    ∃ newNode row, byId (nodesOf py storyId store) itemId = some newNode ∧
      (store.members storyId).find? (fun row => row.item.id = itemId) = some row := by
  have known : itemId ∈ nodeIds (nodesOf py storyId store) := by
    obtain ⟨row, member, same⟩ := visible
    exact mem_nodeIds.mpr ⟨provNode py row, List.mem_map_of_mem member, same⟩
  obtain ⟨newNode, found⟩ := exists_byId.mpr known
  have first : ((store.members storyId).find? fun row => row.item.id = itemId).isSome := by
    rw [List.find?_isSome]
    simpa using visible
  obtain ⟨row, first⟩ := Option.isSome_iff_exists.mp first
  exact ⟨newNode, row, found, first⟩

section Inversion

variable {py : Python} {pg : Postgres} {cfg : Config} {draw : Draw}
  {surfaced : List (Uuid × Int)} {enriched : EnrichedItem} {cut : Option ℕ} {taken : ℕ}

theorem storyOf_opens {store : Store}
    (opens : targetOf py pg cfg draw surfaced enriched store = none) :
    storyOf py pg cfg draw surfaced enriched store = draw.uuid4 := by
  rw [storyOf, opens, Option.getD_none]

theorem storyOf_joins {store : Store} {storyId : Uuid}
    (joins : targetOf py pg cfg draw surfaced enriched store = some storyId) :
    storyOf py pg cfg draw surfaced enriched store = storyId := by
  rw [storyOf, joins, Option.getD_some]

private theorem gate_yields {storyId itemId : Uuid} {text : String} {origins : Nat}
    {store final : Store} {result : Option Unit}
    (yields : Program.Yields (exec py pg surfaced) cut taken
      (if isCandidate origins then
        if textCap : text.length ≤ maxTextLen then
          .perform (.publishHeavy ⟨storyId, itemId, text, textCap⟩)
        else .raise
      else pure ()) store result final) :
    ∃ heavy, final = { store with heavy := heavy } := by
  split at yields
  · split at yields
    · rcases Program.yields_call.mp yields with ⟨_, rfl, _⟩ | ⟨_, published⟩
      · exact ⟨_, rfl⟩
      · exact ⟨_, (Program.yields_done.mp published).1⟩
    · exact ⟨_, (Program.yields_raise.mp yields).1⟩
  · exact ⟨_, (Program.yields_done.mp yields).1⟩

/-- The recount of a visible member, from its first statement on. -/
private theorem updateTrustOf_yields {storyId itemId : Uuid} {store final : Store}
    {result : Option Nat} (visible : ∃ row ∈ store.members storyId, row.item.id = itemId)
    (before : Program.Reached cut 3)
    (yields : Program.Yields (exec py pg surfaced) cut 3 (updateTrustOf py cfg storyId itemId)
      store result final) :
    (final = store ∧ result = none ∧ ¬ Program.Reached cut 5) ∨
      (final = linked py storyId itemId store ∧ result = none ∧ Program.Reached cut 5 ∧
        ¬ Program.Reached cut 8) ∨
      (final = counted py cfg storyId (linked py storyId itemId store) ∧
        Program.Reached cut 8) := by
  obtain ⟨newNode, row, found, first⟩ := visible_node py visible
  have links : linked py storyId itemId store =
      insertEdges store storyId ((detectEdges newNode (nodesOf py storyId store)).map edgeTriple)
        row.item.tsObserved.instant := by
    rw [linked, newEdges, insertEdges]
    rw [found, first, List.map_map]
    rfl
  have same : nodesOf py storyId (linked py storyId itemId store) = nodesOf py storyId store := by
    rw [links]
    rfl
  unfold nodesOf at found
  simp only [updateTrustOf, Program.perform_bind, Program.yields_call, exec, found, first,
    Program.pure_eq] at yields
  rcases yields with ⟨stop, rfl, rfl⟩ | ⟨on3, ⟨stop, rfl, rfl⟩ | ⟨on4, later⟩⟩
  · exact .inl ⟨rfl, rfl, Program.not_reached stop (by omega)⟩
  · exact .inl ⟨rfl, rfl, Program.not_reached stop (by omega)⟩
  have linksReached : Program.Reached cut 5 := (before.succ on3).succ on4
  rcases later with ⟨stop, rfl, rfl⟩ |
    ⟨on5, ⟨stop, rfl, rfl⟩ | ⟨on6, ⟨stop, rfl, rfl⟩ | ⟨on7, later⟩⟩⟩
  · exact .inr (.inl ⟨links.symm, rfl, linksReached, Program.not_reached stop (by omega)⟩)
  · exact .inr (.inl ⟨links.symm, rfl, linksReached, Program.not_reached stop (by omega)⟩)
  · exact .inr (.inl ⟨links.symm, rfl, linksReached, Program.not_reached stop (by omega)⟩)
  · refine .inr (.inr ⟨?_, ((linksReached.succ on5).succ on6).succ on7⟩)
    rw [(Program.yields_done.mp later).1, counted, stateOf, originsOf, sourcesOf, same, links]
    rfl

/-- The item is a visible member of the Story that its attempt joins. -/
theorem visible_touched {store : Store} (stored : Stored store enriched.item.key) {storyId : Uuid}
    (joins : targetOf py pg cfg draw surfaced enriched store = some storyId) :
    ∃ row ∈ (touched py pg cfg draw surfaced enriched storyId store).members storyId,
      row.item.id = enriched.item.id := by
  obtain ⟨row, member, same⟩ := exists_member stored storyId
    (toSigned64 (simhash64 py enriched.item.text)) (wireRef py enriched.item.text)
  refine ⟨row, ?_, congrArg Prod.fst same⟩
  rw [mem_members] at member ⊢
  rwa [touched, items_touchStory, assigned, storyOf_joins joins]

/-- An attempt that joined a Story, from the recount on. -/
private theorem recount_leaves {storyId : Uuid} {store final : Store} {result : Option Unit}
    (stored : Stored store enriched.item.key)
    (chosen : targetOf py pg cfg draw surfaced enriched store = some storyId)
    (reached : Program.Reached cut 3)
    (yields : Program.Yields (exec py pg surfaced) cut 3
      (updateTrustOf py cfg storyId enriched.item.id >>= fun origins =>
        if isCandidate origins then
          if textCap : enriched.item.text.length ≤ maxTextLen then
            .perform (.publishHeavy ⟨storyId, enriched.item.id, enriched.item.text, textCap⟩)
          else .raise
        else pure ())
      (touched py pg cfg draw surfaced enriched storyId store) result final) :
    Leaves py pg cfg draw surfaced enriched cut store result final := by
  have visible := visible_touched stored chosen
  rcases yields.of_bind with ⟨rfl, recount⟩ | ⟨origins, middle, _, recount, gate⟩
  · rcases updateTrustOf_yields visible reached recount with
      ⟨rfl, _, short⟩ | ⟨rfl, _, long, short⟩ | ⟨rfl, long⟩
    · exact .touched stored chosen reached short
    · exact .linked stored chosen long short
    · exact .counted stored chosen long none _
  · obtain ⟨heavy, rfl⟩ := gate_yields gate
    rcases updateTrustOf_yields visible reached recount with
      ⟨_, none, _⟩ | ⟨_, none, _⟩ | ⟨rfl, long⟩
    · cases none
    · cases none
    · exact .counted stored chosen long result heavy

/-- Every way an attempt can end, interrupted or not. -/
theorem handle_leaves {store final : Store} {result : Option Unit}
    (yields : Program.Yields (exec py pg surfaced) cut 0 (handle py cfg draw enriched) store result
      final) :
    Leaves py pg cfg draw surfaced enriched cut store result final := by
  unfold handle at yields
  simp only [Program.perform_bind, Program.yields_call, exec] at yields
  rcases yields with ⟨stop, rfl, rfl⟩ | ⟨on0, ⟨stop, rfl, rfl⟩ | ⟨on1, later⟩⟩
  · exact .unchanged fun _ => Program.not_reached stop (by omega)
  · exact .unchanged fun _ => Program.not_reached stop (by omega)
  have reached : Program.Reached cut 2 := ((Program.reached_zero cut).succ on0).succ on1
  by_cases stored : Stored store enriched.item.key
  · simp only [stored.any, Bool.not_true, Bool.false_eq_true, if_false] at later
    have keyed (storyId : Uuid) (story : storyOf py pg cfg draw surfaced enriched store = storyId) :
        assignItem store (enriched.item.id, enriched.item.tsObserved.instant) storyId
          (toSigned64 (simhash64 py enriched.item.text)) (wireRef py enriched.item.text) =
        assigned py pg cfg draw surfaced enriched store := by
      rw [assigned, story]
      rfl
    cases chosen : targetOf py pg cfg draw surfaced enriched store with
    | none =>
      have story := storyOf_opens chosen
      have gate : isCandidate 1 = false := rfl
      have place := chosen
      unfold targetOf at place
      simp only [place, Option.getD_none, Program.yields_call, Program.pure_eq, Program.done_bind,
        gate, Bool.false_eq_true, if_false, exec, keyed _ story] at later
      rcases later with ⟨stop, rfl, rfl⟩ | ⟨on2, later⟩
      · exact .assigned stored reached (Program.not_reached stop (by omega))
      · rw [(Program.yields_done.mp later).1]
        exact .created stored chosen (reached.succ on2) result
    | some storyId =>
      have story := storyOf_joins chosen
      have place := chosen
      unfold targetOf at place
      simp only [place, Option.getD_some, Program.yields_call, exec, keyed _ story] at later
      rcases later with ⟨stop, rfl, rfl⟩ | ⟨on2, later⟩
      · exact .assigned stored reached (Program.not_reached stop (by omega))
      exact recount_leaves stored chosen (reached.succ on2) later
  · have none : (store.items.any fun row => row.key = (enriched.item.id,
        enriched.item.tsObserved.instant)) = false := by
      simpa [Stored, Item.key] using stored
    simp only [none, Bool.not_false, if_true] at later
    obtain ⟨rfl, rfl⟩ := Program.yields_raise.mp later
    have same := assignItem_unstored stored
    unfold Item.key at same
    rw [same]
    exact .unchanged fun present => absurd present stored

end Inversion

section Frame

variable {py : Python} {pg : Postgres} {cfg : Config} {draw : Draw}
  {surfaced : List (Uuid × Int)} {enriched : EnrichedItem} {cut : Option ℕ} {store final : Store}
  {storyId : Uuid} {result : Option Unit}

@[simp] theorem items_linked (itemId : Uuid) :
    (linked py storyId itemId store).items = store.items := rfl

@[simp] theorem stories_linked (itemId : Uuid) :
    (linked py storyId itemId store).stories = store.stories := rfl

@[simp] theorem items_counted : (counted py cfg storyId store).items = store.items := rfl

theorem ids_counted :
    (counted py cfg storyId store).stories.map StoryRow.id = store.stories.map StoryRow.id :=
  ids_updateStory storyId fun _ => rfl

@[simp] theorem items_created :
    (created py pg cfg draw surfaced enriched store).items =
      (assigned py pg cfg draw surfaced enriched store).items :=
  items_createStory ..

@[simp] theorem items_touched :
    (touched py pg cfg draw surfaced enriched storyId store).items =
      (assigned py pg cfg draw surfaced enriched store).items :=
  items_touchStory ..

/-- The inserted rows depend on the items only. -/
theorem newEdges_congr {other : Store} (same : other.items = store.items) (itemId : Uuid) :
    newEdges py storyId itemId other = newEdges py storyId itemId store := by
  unfold newEdges nodesOf Store.members
  rw [same]

theorem mem_newEdges {itemId : Uuid} {edge : EdgeRow} :
    edge ∈ newEdges py storyId itemId store ↔ ∃ newNode row,
      byId (nodesOf py storyId store) itemId = some newNode ∧
      (store.members storyId).find? (fun row => row.item.id = itemId) = some row ∧
      ∃ found ∈ detectEdges newNode (nodesOf py storyId store),
        edge = ⟨storyId, found.src, found.dst, found.edgeType, row.item.tsObserved.instant⟩ := by
  rw [newEdges]
  split
  · rename_i newNode row node first
    simp only [node, first, Option.some.injEq, exists_and_left, List.mem_map]
    grind
  · grind

/-- A new edge leads from the item to a fellow member it depends on. -/
theorem newEdges_spec {itemId : Uuid} {edge : EdgeRow}
    (member : edge ∈ newEdges py storyId itemId store) :
    edge.storyId = storyId ∧ edge.srcItem = itemId ∧ edge.dstItem ≠ itemId := by
  obtain ⟨newNode, row, node, _, found, detected, rfl⟩ := mem_newEdges.mp member
  obtain ⟨_, _, different, src, dst, _⟩ := mem_detectEdges.mp detected
  have own := (byId_spec node).2
  exact ⟨rfl, src.trans own, fun same => different ((dst.symm.trans same).trans own.symm)⟩

theorem mem_linked {itemId : Uuid} {edge : EdgeRow} :
    edge ∈ (linked py storyId itemId store).provenanceEdges ↔
      edge ∈ store.provenanceEdges ∨ edge ∈ newEdges py storyId itemId store :=
  mem_foldl_insertEdge

@[simp] theorem storyRow_linked (itemId other : Uuid) :
    (linked py storyId itemId store).storyRow other = store.storyRow other := by
  rw [Store.storyRow, stories_linked, Store.storyRow]

theorem storyRow_counted (other : Uuid) :
    (counted py cfg storyId store).storyRow other = (store.storyRow other).map fun row =>
      if other = storyId then
        { row with
          independentOrigins := originsOf py storyId store
          trustState := stateOf py cfg storyId store }
      else row :=
  storyRow_updateStory storyId other fun _ => rfl

/-- The only rows an attempt writes are those of its own item. -/
theorem mem_assigned {row : ItemRow}
    (member : row ∈ (assigned py pg cfg draw surfaced enriched store).items) :
    ∃ old ∈ store.items, row.item = old.item ∧
      (row.key = enriched.item.key ∧
          row.storyId = some (storyOf py pg cfg draw surfaced enriched store) ∧
          row.simhash = some (toSigned64 (simhash64 py enriched.item.text)) ∧
          row.wireRef = wireRef py enriched.item.text ∨
        row.key ≠ enriched.item.key ∧ row = old) := by
  obtain ⟨old, present, rfl⟩ := List.mem_map.mp member
  refine ⟨old, present, ?_⟩
  by_cases own : old.key = enriched.item.key
  · rw [if_pos own]
    exact ⟨rfl, .inl ⟨own, rfl, rfl, rfl⟩⟩
  · rw [if_neg own]
    exact ⟨rfl, .inr ⟨own, rfl⟩⟩

/-- The row of the item is in the Story chosen. -/
theorem own_row_assigned {row : ItemRow}
    (member : row ∈ (assigned py pg cfg draw surfaced enriched store).items)
    (own : row.key = enriched.item.key) :
    ∃ old ∈ store.items, row.item = old.item ∧
      row.storyId = some (storyOf py pg cfg draw surfaced enriched store) := by
  obtain ⟨old, present, same, ⟨_, joined, _⟩ | ⟨different, _⟩⟩ := mem_assigned member
  · exact ⟨old, present, same, joined⟩
  · exact absurd own different

theorem ids_assigned : (assigned py pg cfg draw surfaced enriched store).items.map
    (fun row => row.item.id) = store.items.map fun row => row.item.id := by
  rw [assigned, assignItem]
  rw [List.map_map]
  apply List.map_congr_left
  intro row _
  simp only [Function.comp_apply]
  split <;> rfl

theorem stays_assigned {row : ItemRow} (member : row ∈ store.items)
    (other : row.key ≠ enriched.item.key) :
    row ∈ (assigned py pg cfg draw surfaced enriched store).items :=
  List.mem_map.mpr ⟨row, member, if_neg other⟩

theorem mem_ids_created {id : Uuid} :
    id ∈ (created py pg cfg draw surfaced enriched store).stories.map StoryRow.id ↔
      id ∈ store.stories.map StoryRow.id ∨ id = draw.uuid4 := by
  rw [created, createStory]
  split
  · rename_i conflict
    simp only [stories_assignItem, assigned, List.any_eq_true, decide_eq_true_eq] at conflict ⊢
    constructor
    · exact .inl
    · rintro (present | rfl)
      · exact present
      · obtain ⟨row, member, same, _⟩ := conflict
        exact List.mem_map.mpr ⟨row, member, same⟩
  · simp [assigned]

/-- An attempt either wrote nothing or assigned its item. -/
theorem leaves_items (leaves : Leaves py pg cfg draw surfaced enriched cut store result final) :
    (final = store ∧ result = none ∧
        (Stored store enriched.item.key → ¬ Program.Reached cut 2)) ∨
      (Stored store enriched.item.key ∧ Program.Reached cut 2 ∧
        final.items = (assigned py pg cfg draw surfaced enriched store).items) := by
  cases leaves with
  | unchanged early => exact .inl ⟨rfl, rfl, early⟩
  | assigned stored reached short => exact .inr ⟨stored, reached, rfl⟩
  | created stored opens reached result =>
    exact .inr ⟨stored, reached.of_le (by omega), items_created⟩
  | touched stored joins reached short =>
    exact .inr ⟨stored, reached.of_le (by omega), items_touched⟩
  | linked stored joins reached short => exact .inr ⟨stored, reached.of_le (by omega), by simp⟩
  | counted stored joins reached result heavy =>
    exact .inr ⟨stored, reached.of_le (by omega), by simp⟩

/-- A row of another item was there before the attempt. -/
theorem mem_items_before (leaves : Leaves py pg cfg draw surfaced enriched cut store result final)
    {row : ItemRow} (member : row ∈ final.items) (other : row.key ≠ enriched.item.key) :
    row ∈ store.items := by
  rcases leaves_items leaves with ⟨rfl, _⟩ | ⟨_, _, items⟩
  · exact member
  · rw [items] at member
    obtain ⟨old, present, _, ⟨own, _⟩ | ⟨_, rfl⟩⟩ := mem_assigned member
    · exact absurd own other
    · exact present

/-- An attempt that ran to its end has put the row of its item into the Story chosen. -/
theorem own_row_ended {row : ItemRow}
    (leaves : Leaves py pg cfg draw surfaced enriched cut store (some ()) final)
    (member : row ∈ final.items) (own : row.key = enriched.item.key) :
    ∃ old ∈ store.items, row.item = old.item ∧
      row.storyId = some (storyOf py pg cfg draw surfaced enriched store) := by
  rcases leaves_items leaves with ⟨_, none, _⟩ | ⟨_, _, items⟩
  · cases none
  · rw [items] at member
    exact own_row_assigned member own

/-- An attempt that got to the edges has assigned its item. -/
theorem leaves_linked (leaves : Leaves py pg cfg draw surfaced enriched cut store result final)
    (stored : Stored store enriched.item.key) (reached : Program.Reached cut 5) :
    final.items = (assigned py pg cfg draw surfaced enriched store).items := by
  rcases leaves_items leaves with ⟨_, _, early⟩ | ⟨_, _, items⟩
  · exact absurd (reached.of_le (by omega)) (early stored)
  · exact items

/-- An attempt adds no Story, or the one it opens. -/
theorem leaves_stories (leaves : Leaves py pg cfg draw surfaced enriched cut store result final) :
    final.stories.map StoryRow.id = store.stories.map StoryRow.id ∨
      (Stored store enriched.item.key ∧
        targetOf py pg cfg draw surfaced enriched store = none ∧ Program.Reached cut 3 ∧
        final = created py pg cfg draw surfaced enriched store) := by
  have joined (storyId : Uuid) :
      (touched py pg cfg draw surfaced enriched storyId store).stories.map StoryRow.id =
        store.stories.map StoryRow.id :=
    ids_touchStory ..
  cases leaves with
  | unchanged early => exact .inl rfl
  | assigned stored reached short => exact .inl rfl
  | created stored opens reached result => exact .inr ⟨stored, opens, reached, rfl⟩
  | @touched stored storyId joins reached short => exact .inl (joined storyId)
  | @linked stored storyId joins reached short => exact .inl (joined storyId)
  | @counted stored storyId joins reached result heavy =>
    exact .inl (ids_counted.trans (joined storyId))

/-- An attempt stores no edge, or those of its item to its fellow members. -/
theorem leaves_edges (leaves : Leaves py pg cfg draw surfaced enriched cut store result final) :
    (final.provenanceEdges = store.provenanceEdges ∧
        (Stored store enriched.item.key → Program.Reached cut 5 →
          targetOf py pg cfg draw surfaced enriched store = none)) ∨
      (Stored store enriched.item.key ∧ Program.Reached cut 5 ∧ ∃ storyId,
        targetOf py pg cfg draw surfaced enriched store = some storyId ∧
        ∀ edge, edge ∈ final.provenanceEdges ↔ edge ∈ store.provenanceEdges ∨
          edge ∈ newEdges py storyId enriched.item.id
            (assigned py pg cfg draw surfaced enriched store)) := by
  have inserted (storyId : Uuid) (edge : EdgeRow) :
      edge ∈ (linked py storyId enriched.item.id
          (touched py pg cfg draw surfaced enriched storyId store)).provenanceEdges ↔
        edge ∈ store.provenanceEdges ∨ edge ∈ newEdges py storyId enriched.item.id
          (assigned py pg cfg draw surfaced enriched store) := by
    rw [mem_linked, newEdges_congr items_touched, touched, edges_touchStory]
    rfl
  cases leaves with
  | unchanged early =>
    exact .inl ⟨rfl, fun stored reached => absurd (reached.of_le (by omega)) (early stored)⟩
  | assigned stored reached short =>
    exact .inl ⟨rfl, fun _ reached => absurd (reached.of_le (by omega)) short⟩
  | created stored opens reached result => exact .inl ⟨edges_createStory .., fun _ _ => opens⟩
  | touched stored joins reached short =>
    exact .inl ⟨edges_touchStory .., fun _ reached => absurd reached short⟩
  | linked stored joins reached short => exact .inr ⟨stored, reached, _, joins, inserted _⟩
  | counted stored joins reached result heavy =>
    exact .inr ⟨stored, reached.of_le (by omega), _, joins, inserted _⟩

/-- An attempt that ended opened a Story or stored its edges. -/
theorem leaves_ended (leaves : Leaves py pg cfg draw surfaced enriched cut store (some ()) final) :
    Stored store enriched.item.key ∧ Program.Reached cut 3 ∧
      (targetOf py pg cfg draw surfaced enriched store = none ∨ Program.Reached cut 5) := by
  cases leaves with
  | created stored opens reached => exact ⟨stored, reached, .inl opens⟩
  | counted stored joins reached result heavy =>
    exact ⟨stored, reached.of_le (by omega), .inr (reached.of_le (by omega))⟩

/-- An attempt changes the trust state of the Story it recounts, and of no other. -/
theorem leaves_trust (leaves : Leaves py pg cfg draw surfaced enriched cut store result final)
    (other : Uuid) :
    storyState final other = storyState store other ∨
      (Stored store enriched.item.key ∧ Program.Reached cut 8 ∧
        targetOf py pg cfg draw surfaced enriched store = some other ∧ ∃ before : Store,
        before.items = final.items ∧ before.provenanceEdges = final.provenanceEdges ∧
        storyState before other = storyState store other ∧
        storyState final other = stateOf py cfg other before) := by
  have kept (storyId : Uuid) :
      storyState (touched py pg cfg draw surfaced enriched storyId store) other =
        storyState store other :=
    storyState_touchStory ..
  cases leaves with
  | unchanged early => exact .inl rfl
  | assigned stored reached short => exact .inl rfl
  | created stored opens reached result => exact .inl (storyState_createStory ..)
  | @touched stored storyId joins reached short => exact .inl (kept storyId)
  | @linked stored storyId joins reached short => exact .inl (kept storyId)
  | @counted stored storyId joins reached result heavy =>
    have before := kept storyId
    by_cases same : other = storyId
    · subst same
      cases found : (touched py pg cfg draw surfaced enriched other store).storyRow other with
      | none =>
        refine .inl ?_
        rw [← before]
        unfold storyState
        change ((counted py cfg other _).storyRow other).elim _ _ = _
        rw [storyRow_counted, storyRow_linked, found]
        rfl
      | some row =>
        refine .inr ⟨stored, reached, joins, linked py other enriched.item.id
          (touched py pg cfg draw surfaced enriched other store), rfl, rfl, before, ?_⟩
        change ((counted py cfg other _).storyRow other).elim _ _ = _
        rw [storyRow_counted, storyRow_linked, found]
        simp
    · refine .inl ?_
      rw [← before]
      unfold storyState
      change ((counted py cfg storyId _).storyRow other).elim _ _ = _
      rw [storyRow_counted, storyRow_linked]
      simp [same]

theorem edges_subset_leaves
    (leaves : Leaves py pg cfg draw surfaced enriched cut store result final) :
    store.provenanceEdges ⊆ final.provenanceEdges := by
  rcases leaves_edges leaves with ⟨same, _⟩ | ⟨_, _, _, _, inserted⟩
  · rw [same]
    exact List.Subset.refl _
  · exact fun edge member => (inserted edge).mpr (.inl member)

end Frame

/-- The server on one embedding, whose similarity to itself is 1. -/
def plainPostgres : Postgres where
  lower := Python.plain.lower
  similarity _ _ := ((1 : ℚ) : WithBot ℚ)

/-- A wordless report about one place, embedded like every other. -/
def report (id : Uuid) (author source : String) (sourceClass : SourceClass)
    (parentRef : Option String := none) : EnrichedItem where
  item := {
    id, source, sourceClass, tsObserved := ⟨id, 0⟩, text := "!",
    entities := [{ text := "Kyiv", type := .place, textCap := by decide }],
    authorRef := author, parentRef, contentHash := "post:" ++ author }
  embedding _ := 1

end NewsAggregator.Cluster
