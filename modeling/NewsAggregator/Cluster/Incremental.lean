import NewsAggregator.Cluster.Promotion

/-! Provenance is computed from the newest member on. Over an undisturbed Story
it equals what one pass over all members computes, in any order of arrival. -/

namespace NewsAggregator.Cluster

open Trust Dedup Foundation

/-- The column `independent_origins` of the Story's row. -/
def storedOrigins (store : Store) (storyId : Uuid) : Option Nat :=
  (store.storyRow storyId).map StoryRow.independentOrigins

/-- The row of an item with the columns clustering computes from its text. -/
def fingerprinted (py : Python) (item : Item) : ItemRow where
  item := item
  embedding := none
  simhash := some (toSigned64 (simhash64 py item.text))
  wireRef := wireRef py item.text

/-- No message of a member comes again, and an attempt that joins the Story ends
and is at the item the writer stored. -/
def Unbroken (d : Deployment) (storyId : Uuid) (system : System) : Event → Prop
  | .deliver seq attempt => ∀ enriched ∈ d.item seq, ∀ row ∈ system.store.items,
      row.key = enriched.item.key → Program.Reached attempt.cut 2 →
        row.storyId ≠ some storyId ∧
          (storyOf d.py d.pg d.cfg attempt.draw attempt.surfaced enriched system.store = storyId →
            row.item = enriched.item ∧ (d.attempt attempt enriched system.store).1.isSome)
  | _ => True

instance (d : Deployment) (storyId : Uuid) (system : System) :
    DecidablePred (Unbroken d storyId system)
  | .write _ => isTrue trivial
  | .promote _ => isTrue trivial
  | .deliver seq _ => inferInstanceAs (Decidable (∀ enriched ∈ d.item seq, _))

/-- The Story is unbroken, and items have their own ids. -/
def Smooth (d : Deployment) (storyId : Uuid) (system : System) (event : Event) : Prop :=
  Unbroken d storyId system event ∧ OwnId system event

instance (d : Deployment) (storyId : Uuid) (system : System) :
    DecidablePred (Smooth d storyId system) :=
  fun event => inferInstanceAs (Decidable (Unbroken d storyId system event ∧ OwnId system event))

/-- The stored provenance of a Story is that of all its members at once. -/
structure Batch (py : Python) (store : Store) (storyId : Uuid) : Prop where
  distinct : DistinctIds store
  projected : ∀ row ∈ store.members storyId,
    provNode py row = provNode py (fingerprinted py row.item)
  edges : ∀ a b edgeType, Recorded store storyId a b edgeType ↔
    JoinedBy (allEdges (nodesOf py storyId store)) a b edgeType
  origins : store.members storyId ≠ [] → storedOrigins store storyId =
    some (independentOrigins (nodesOf py storyId store) (allEdges (nodesOf py storyId store)))

section Attempt

variable {py : Python} {pg : Postgres} {cfg : Config} {draw : Draw}
  {surfaced : List (Uuid × Int)} {enriched : EnrichedItem} {cut : Option ℕ} {store final : Store}
  {result : Option Unit} {storyId other : Uuid}

/-- What the stored provenance of a Story reads. -/
theorem Batch.frame (batch : Batch py store storyId) (distinct : DistinctIds final)
    (members : final.members storyId = store.members storyId)
    (edges : ∀ a b edgeType, Recorded final storyId a b edgeType ↔
      Recorded store storyId a b edgeType)
    (origins : storedOrigins final storyId = storedOrigins store storyId) :
    Batch py final storyId := by
  have nodes : nodesOf py storyId final = nodesOf py storyId store := by
    rw [nodesOf, members, nodesOf]
  refine ⟨distinct, ?_, ?_, ?_⟩
  · rw [members]
    exact batch.projected
  · intro a b edgeType
    rw [edges, nodes]
    exact batch.edges a b edgeType
  · rw [members, origins, nodes]
    exact batch.origins

theorem storedOrigins_promote :
    storedOrigins (promotePrimaryBacked store other) storyId = storedOrigins store storyId := by
  rw [storedOrigins]
  rw [storyRow_promotePrimaryBacked, Option.map_map]
  congr 1
  funext row
  simp only [Function.comp_apply]
  split <;> rfl

theorem storedOrigins_touched :
    storedOrigins (touched py pg cfg draw surfaced enriched other store) storyId =
      storedOrigins store storyId := by
  rw [storedOrigins, touched]
  rw [storyRow_touchStory, Option.map_map]
  congr 1
  funext row
  simp only [Function.comp_apply]
  split <;> rfl

theorem storedOrigins_counted :
    storedOrigins (counted py cfg other store) storyId =
      if storyId = other then (storedOrigins store storyId).map fun _ => originsOf py other store
      else storedOrigins store storyId := by
  unfold storedOrigins
  rw [storyRow_counted]
  by_cases same : storyId = other
  · simp only [same, if_true, Option.map_map]
    rfl
  · simp only [same, if_false, Option.map_id']

/-- An attempt leaves the count of every other Story alone. -/
theorem storedOrigins_leaves
    (leaves : Leaves py pg cfg draw surfaced enriched cut store result final)
    (elsewhere : storyOf py pg cfg draw surfaced enriched store ≠ storyId) :
    storedOrigins final storyId = storedOrigins store storyId := by
  cases leaves with
  | unchanged early => rfl
  | assigned stored reached short => rfl
  | created stored opens reached result =>
    rw [storyOf_opens opens] at elsewhere
    rw [storedOrigins, created]
    rw [storyRow_createStory_other elsewhere.symm]
    rfl
  | touched stored joins reached short => exact storedOrigins_touched
  | linked stored joins reached short => exact storedOrigins_touched
  | counted stored joins reached result heavy =>
    rw [storyOf_joins joins] at elsewhere
    change storedOrigins (counted py cfg _ _) storyId = _
    rw [storedOrigins_counted, if_neg elsewhere.symm]
    exact storedOrigins_touched

/-- An item that neither was nor becomes a member leaves the members as they are. -/
theorem members_assigned_other
    (elsewhere : storyOf py pg cfg draw surfaced enriched store ≠ storyId)
    (outside : ∀ row ∈ store.items, row.key = enriched.item.key → row.storyId ≠ some storyId) :
    (assigned py pg cfg draw surfaced enriched store).members storyId =
      store.members storyId := by
  unfold Store.members assigned assignItem
  dsimp only
  revert outside
  generalize storyOf py pg cfg draw surfaced enriched store = target at elsewhere
  induction store.items with
  | nil => exact fun _ => rfl
  | cons row rest ih =>
    intro outside
    have later := ih fun other member => outside other (List.mem_cons_of_mem row member)
    rw [List.map_cons]
    by_cases own : row.key = enriched.item.key
    · rw [if_pos own, List.filter_cons_of_neg (by simpa using elsewhere), later,
        List.filter_cons_of_neg (by simpa using outside row List.mem_cons_self own)]
    · rw [if_neg own, List.filter_cons, List.filter_cons, later]

theorem recorded_leaves_other
    (leaves : Leaves py pg cfg draw surfaced enriched cut store result final)
    (elsewhere : storyOf py pg cfg draw surfaced enriched store ≠ storyId) {a b : Uuid}
    {edgeType : EdgeType} :
    Recorded final storyId a b edgeType ↔ Recorded store storyId a b edgeType := by
  refine ⟨fun recorded => ?_, fun recorded => recorded.mono (edges_subset_leaves leaves)⟩
  obtain ⟨row, stored, same, rest⟩ := recorded_iff.mp recorded
  rcases leaves_edges leaves with ⟨kept, _⟩ | ⟨_, _, target, joins, inserted⟩
  · rw [kept] at stored
    exact recorded_iff.mpr ⟨row, stored, same, rest⟩
  · rcases (inserted row).mp stored with old | new
    · exact recorded_iff.mpr ⟨row, old, same, rest⟩
    · rw [storyOf_joins joins] at elsewhere
      exact absurd ((newEdges_spec new).1.symm.trans same) elsewhere

/-- The members after an attempt at an item that was none. -/
theorem mem_members_assigned
    (joins : storyOf py pg cfg draw surfaced enriched store = storyId)
    (outside : ∀ row ∈ store.items, row.key = enriched.item.key → row.storyId ≠ some storyId)
    {row : ItemRow} :
    row ∈ (assigned py pg cfg draw surfaced enriched store).members storyId ↔
      row ∈ store.members storyId ∨ ∃ old ∈ store.items, old.key = enriched.item.key ∧
        row = { old with
          storyId := some storyId
          simhash := some (toSigned64 (simhash64 py enriched.item.text))
          wireRef := wireRef py enriched.item.text } := by
  rw [mem_members, mem_members, ← joins]
  constructor
  · rintro ⟨present, member⟩
    obtain ⟨old, listed, rfl⟩ := List.mem_map.mp present
    split at member
    · rename_i own
      rw [if_pos own]
      exact .inr ⟨old, listed, own, rfl⟩
    · rename_i foreign
      rw [if_neg foreign]
      exact .inl ⟨listed, member⟩
  · rintro (⟨listed, member⟩ | ⟨old, listed, own, rfl⟩)
    · have foreign : row.key ≠ enriched.item.key := fun own =>
        outside row listed own (joins ▸ member)
      exact ⟨stays_assigned listed foreign, member⟩
    · exact ⟨List.mem_map.mpr ⟨old, listed, if_pos own⟩, rfl⟩

/-- The last row of a run of joins is projected like the others. -/
theorem projected_assigned (batch : Batch py store storyId)
    (joins : storyOf py pg cfg draw surfaced enriched store = storyId)
    (outside : ∀ row ∈ store.items, row.key = enriched.item.key → row.storyId ≠ some storyId)
    (genuine : ∀ row ∈ store.items, row.key = enriched.item.key → row.item = enriched.item) :
    ∀ row ∈ (assigned py pg cfg draw surfaced enriched store).members storyId,
      provNode py row = provNode py (fingerprinted py row.item) := by
  intro row member
  rcases (mem_members_assigned joins outside).mp member with old | ⟨old, listed, own, rfl⟩
  · exact batch.projected row old
  · rw [← genuine old listed own]
    rfl

/-- The item that opens a Story is its only member. -/
theorem own_of_opened (joins : storyOf py pg cfg draw surfaced enriched store = storyId)
    (fresh : ∀ row ∈ store.items, row.storyId ≠ some storyId) {row : ItemRow}
    (member : row ∈ (created py pg cfg draw surfaced enriched store).members storyId) :
    row.key = enriched.item.key := by
  rw [Store.members, items_created, ← Store.members] at member
  rcases (mem_members_assigned joins fun row listed _ => fresh row listed).mp member with
    old | ⟨old, _, same, rfl⟩
  · exact absurd (mem_members.mp old).2 (fresh row (mem_members.mp old).1)
  · exact same

theorem nodeIds_opened (joins : storyOf py pg cfg draw surfaced enriched store = storyId)
    (fresh : ∀ row ∈ store.items, row.storyId ≠ some storyId)
    (stored : Stored store enriched.item.key) :
    nodeIds (nodesOf py storyId (created py pg cfg draw surfaced enriched store)) =
      {enriched.item.id} := by
  apply Finset.eq_singleton_iff_unique_mem.mpr
  constructor
  · obtain ⟨row, listed, same⟩ := stored
    have member := (mem_members_assigned joins fun row listed _ => fresh row listed).mpr
      (.inr ⟨row, listed, same, rfl⟩)
    rw [Store.members, ← items_created, ← Store.members] at member
    exact mem_nodeIds.mpr ⟨_, List.mem_map_of_mem member, congrArg Prod.fst same⟩
  · intro id known
    obtain ⟨node, nodeMember, rfl⟩ := mem_nodeIds.mp known
    obtain ⟨row, member, rfl⟩ := List.mem_map.mp nodeMember
    exact congrArg Prod.fst (own_of_opened joins fresh member)

/-- The item that opens a Story is its only origin. -/
theorem Batch.open (batch : Batch py store storyId)
    (opens : targetOf py pg cfg draw surfaced enriched store = none)
    (joins : storyOf py pg cfg draw surfaced enriched store = storyId)
    (stored : Stored store enriched.item.key)
    (fresh : store.storyRow draw.uuid4 = none ∧
      ∀ row ∈ store.items, row.storyId ≠ some draw.uuid4)
    (genuine : ∀ row ∈ store.items, row.key = enriched.item.key → row.item = enriched.item) :
    Batch py (created py pg cfg draw surfaced enriched store) storyId := by
  have drawn : draw.uuid4 = storyId := (storyOf_opens opens).symm.trans joins
  rw [drawn] at fresh
  have ids := nodeIds_opened joins fresh.2 stored
  refine ⟨?_, ?_, ?_, ?_⟩
  · rw [DistinctIds, items_created, ids_assigned]
    exact batch.distinct
  · rw [Store.members, items_created, ← Store.members]
    exact projected_assigned batch joins (fun row listed _ => fresh.2 row listed) genuine
  · intro a b edgeType
    constructor
    · intro recorded
      have old : Recorded store storyId a b edgeType := by
        obtain ⟨row, listed, rest⟩ := recorded_iff.mp recorded
        rw [created, edges_createStory] at listed
        exact recorded_iff.mpr ⟨row, listed, rest⟩
      obtain ⟨x, member, _⟩ := joined_allEdges.mp ((batch.edges a b edgeType).mp old)
      obtain ⟨row, rowMember, _⟩ := List.mem_map.mp member
      exact absurd (mem_members.mp rowMember).2 (fresh.2 row (mem_members.mp rowMember).1)
    · intro joined
      obtain ⟨x, xMember, y, yMember, rfl, rfl, different, _⟩ := joined_allEdges.mp joined
      have xId := itemId_mem xMember
      have yId := itemId_mem yMember
      rw [ids, Finset.mem_singleton] at xId yId
      exact absurd (xId.trans yId.symm) different
  · intro _
    have one : independentOrigins
        (nodesOf py storyId (created py pg cfg draw surfaced enriched store))
        (allEdges (nodesOf py storyId (created py pg cfg draw surfaced enriched store))) = 1 := by
      rw [independentOrigins_eq, ids, classCount_singleton]
    have unused : (assigned py pg cfg draw surfaced enriched store).storyRow storyId = none :=
      fresh.1
    have row : storedOrigins (created py pg cfg draw surfaced enriched store) storyId = some 1 := by
      rw [storedOrigins, created]
      rw [drawn, storyRow_createStory_fresh unused]
      rfl
    rw [row, one]

/-- The stored edges after a join are those of all pairs of members. -/
theorem Batch.edges_join (batch : Batch py store storyId)
    (leaves : Leaves py pg cfg draw surfaced enriched cut store result final)
    (chosen : targetOf py pg cfg draw surfaced enriched store = some storyId)
    (stored : Stored store enriched.item.key) (reached : Program.Reached cut 5)
    (outside : ∀ row ∈ store.items, row.key = enriched.item.key → row.storyId ≠ some storyId)
    {a b : Uuid} {edgeType : EdgeType} : Recorded final storyId a b edgeType ↔
      JoinedBy (allEdges (nodesOf py storyId final)) a b edgeType := by
  have members : final.members storyId =
      (assigned py pg cfg draw surfaced enriched store).members storyId := by
    rw [Store.members, leaves_linked leaves stored reached, Store.members]
  constructor
  · intro recorded
    obtain ⟨row, listed, same, rfl, ends⟩ := recorded_iff.mp recorded
    rcases leaves_edges leaves with ⟨_, opens⟩ | ⟨_, _, target, place, inserted⟩
    · cases (opens stored reached).symm.trans chosen
    · cases place.symm.trans chosen
      rcases (inserted row).mp listed with old | new
      · have before := (batch.edges a b row.edgeType).mp
          (recorded_iff.mpr ⟨row, old, same, rfl, ends⟩)
        have grown : nodesOf py storyId store ⊆ nodesOf py storyId final := by
          intro node member
          obtain ⟨row, old, rfl⟩ := List.mem_map.mp member
          exact List.mem_map_of_mem
            (members ▸ (mem_members_assigned (storyOf_joins chosen) outside).mpr (.inl old))
        obtain ⟨x, xMember, y, yMember, rest⟩ := joined_allEdges.mp before
        exact joined_allEdges.mpr ⟨x, grown xMember, y, grown yMember, rest⟩
      · obtain ⟨newNode, _, node, _, found, detected, rfl⟩ := mem_newEdges.mp new
        rw [nodesOf, ← members] at node detected
        exact ⟨found, List.mem_flatMap.mpr ⟨newNode, (byId_spec node).1, detected⟩, rfl, ends⟩
  · intro joined
    obtain ⟨x, xMember, y, yMember, rfl, rfl, different, depends⟩ := joined_allEdges.mp joined
    obtain ⟨a, aMember, rfl⟩ := List.mem_map.mp xMember
    obtain ⟨b, bMember, rfl⟩ := List.mem_map.mp yMember
    -- a pair was joined by this attempt, or was one before
    by_cases aOwn : a.key = enriched.item.key
    · exact pair_linked leaves batch.distinct stored reached chosen aMember bMember different aOwn
        edgeType depends
    by_cases bOwn : b.key = enriched.item.key
    · exact (pair_linked leaves batch.distinct stored reached chosen bMember aMember
        different.symm bOwn edgeType (dependsBy_comm.mp depends)).symm
    have aBefore := List.mem_map_of_mem (f := provNode py) (member_before leaves aMember aOwn)
    have bBefore := List.mem_map_of_mem (f := provNode py) (member_before leaves bMember bOwn)
    have old := (batch.edges _ _ edgeType).mpr
      (joined_allEdges.mpr ⟨_, aBefore, _, bBefore, rfl, rfl, different, depends⟩)
    exact old.mono (edges_subset_leaves leaves)

/-- The recount for the newest member is the count over all members. -/
theorem Batch.join (batch : Batch py store storyId)
    (leaves : Leaves py pg cfg draw surfaced enriched cut store result final)
    (chosen : targetOf py pg cfg draw surfaced enriched store = some storyId)
    (stored : Stored store enriched.item.key) (reached : Program.Reached cut 5)
    (counts : storedOrigins final storyId =
      (storedOrigins store storyId).map fun _ => originsOf py storyId final)
    (outside : ∀ row ∈ store.items, row.key = enriched.item.key → row.storyId ≠ some storyId)
    (genuine : ∀ row ∈ store.items, row.key = enriched.item.key → row.item = enriched.item) :
    Batch py final storyId := by
  have items := leaves_linked leaves stored reached
  have edges (a b : Uuid) (edgeType : EdgeType) : Recorded final storyId a b edgeType ↔
      JoinedBy (allEdges (nodesOf py storyId final)) a b edgeType :=
    batch.edges_join leaves chosen stored reached outside
  refine ⟨?_, ?_, edges, ?_⟩
  · rw [DistinctIds, items, ids_assigned]
    exact batch.distinct
  · rw [Store.members, items, ← Store.members]
    exact projected_assigned batch (storyOf_joins chosen) outside genuine
  · intro _
    -- the neighbour that led to the Story is a member of it
    obtain ⟨neighbor, near, same⟩ := chooseStory_mem chosen
    obtain ⟨row, surfacedRow, found⟩ := List.mem_filterMap.mp near
    obtain ⟨target, owner, rfl⟩ := Option.map_eq_some_iff.mp found
    have member : row ∈ store.members storyId :=
      mem_members.mpr ⟨(mem_nearest surfacedRow).1, same ▸ owner⟩
    rw [counts, batch.origins (List.ne_nil_of_mem member), Option.map_some]
    exact congrArg some (independentOrigins_congr (fun _ => Iff.rfl) edges)

end Attempt

section Run

variable {d : Deployment} {system : System} {storyId : Uuid}

private theorem deliver_batch {seq : ℕ} {attempt : Attempt}
    (batch : Batch d.py system.store storyId)
    (fresh : FreshDraw system (.deliver seq attempt))
    (smooth : Smooth d storyId system (.deliver seq attempt)) :
    Batch d.py (step d system (.deliver seq attempt)).store storyId := by
  cases handled : d.item seq with
  | none =>
    rw [step_dropped handled]
    exact batch
  | some enriched =>
    obtain ⟨result, final, ran, leaves, next⟩ :=
      step_handled system attempt handled
    rw [next, System.settle_store]
    rcases leaves_items leaves with ⟨rfl, _⟩ | ⟨stored, reached, items⟩
    · exact batch
    have outside row (listed : row ∈ system.store.items) (own : row.key = enriched.item.key) :
        row.storyId ≠ some storyId :=
      (smooth.1 enriched handled row listed own reached).1
    by_cases joins : storyOf d.py d.pg d.cfg attempt.draw attempt.surfaced enriched system.store =
        storyId
    · have genuine row (listed : row ∈ system.store.items) (own : row.key = enriched.item.key) :
          row.item = enriched.item :=
        ((smooth.1 enriched handled row listed own reached).2 joins).1
      have ended : result.isSome := by
        obtain ⟨row, listed, own⟩ := stored
        have ended := ((smooth.1 enriched handled row listed own reached).2 joins).2
        rwa [ran] at ended
      obtain ⟨⟨⟩, rfl⟩ := Option.isSome_iff_exists.mp ended
      cases leaves with
      | created _ opens => exact batch.open opens joins stored fresh genuine
      | @counted _ target chosen long _ heavy =>
        have same : target = storyId := (storyOf_joins chosen).symm.trans joins
        subst same
        refine batch.join (.counted stored chosen long (some ()) heavy) chosen stored
          (long.of_le (by omega)) ?_ outside genuine
        change storedOrigins (counted d.py d.cfg target _) target = _
        rw [storedOrigins_counted, if_pos rfl]
        change (storedOrigins (touched d.py d.pg d.cfg attempt.draw attempt.surfaced enriched target
          system.store) target).map _ = _
        rw [storedOrigins_touched]
        rfl
    · refine batch.frame ?_ ?_ (fun _ _ _ => recorded_leaves_other leaves joins)
        (storedOrigins_leaves leaves joins)
      · rw [DistinctIds, items, ids_assigned]
        exact batch.distinct
      · rw [Store.members, items]
        exact members_assigned_other joins outside

theorem step_batch {event : Event} (batch : Batch d.py system.store storyId)
    (fresh : FreshDraw system event) (smooth : Smooth d storyId system event) :
    Batch d.py (step d system event).store storyId := by
  cases event with
  | write enriched =>
    have distinct : DistinctIds (step d system (.write enriched)).store :=
      step_distinctIds batch.distinct smooth.2
    refine batch.frame distinct ?_ (fun a b edgeType => ?_) ?_
    · exact members_insertItem enriched storyId
    · rw [recorded_iff, recorded_iff, step, edges_insertItem]
    · rw [step, storedOrigins, Store.storyRow, stories_insertItem]
      rfl
  | promote target =>
    exact batch.frame batch.distinct rfl (fun _ _ _ => Iff.rfl) storedOrigins_promote
  | deliver seq attempt => exact deliver_batch batch fresh smooth

theorem run_batch {events : List Event} (fresh : Along (step d) FreshDraw {} events)
    (smooth : Along (step d) (Smooth d storyId) {} events) :
    Batch d.py (run (step d) {} events).store storyId := by
  have start : Batch d.py ({} : System).store storyId := by
    refine ⟨by simp [DistinctIds], by simp [Store.members], fun a b edgeType => ?_, by
      simp [Store.members]⟩
    simp [recorded_iff, joined_allEdges, nodesOf, Store.members]
  exact (fresh.and smooth).invariant _ start fun _ _ batch meets => step_batch batch meets.1 meets.2

end Run

/-- The items of the Story's members. -/
def memberItems (store : Store) (storyId : Uuid) : List Item :=
  (store.members storyId).map ItemRow.item

theorem Batch.mem_nodesOf {py : Python} {store : Store} {storyId : Uuid}
    (batch : Batch py store storyId) {node : ProvNode} :
    node ∈ nodesOf py storyId store ↔
      ∃ item ∈ memberItems store storyId, provNode py (fingerprinted py item) = node := by
  simp only [nodesOf, memberItems, List.mem_map, exists_exists_and_eq_and]
  exact exists_congr fun row => and_congr_right fun member => by rw [batch.projected row member]

theorem Batch.nodup {py : Python} {store : Store} {storyId : Uuid}
    (batch : Batch py store storyId) :
    ((nodesOf py storyId store).map ProvNode.itemId).Nodup := by
  rw [nodesOf, List.map_map]
  exact batch.distinct.sublist (List.filter_sublist.map _)

/-- The stored provenance of an undisturbed Story is that of one pass over its
members, and two orders of arrival agree on it. -/
theorem incremental_eq_batch (d : Deployment) {storyId other : Uuid} {events shuffled : List Event}
    (fresh : Along (step d) FreshDraw {} events)
    (smooth : Along (step d) (Smooth d storyId) {} events)
    (inhabited : (run (step d) {} events).store.members storyId ≠ [])
    (fresh' : Along (step d) FreshDraw {} shuffled)
    (smooth' : Along (step d) (Smooth d other) {} shuffled)
    (same : ∀ item, item ∈ memberItems (run (step d) {} events).store storyId ↔
      item ∈ memberItems (run (step d) {} shuffled).store other) :
    let store := (run (step d) {} events).store
    let nodes := nodesOf d.py storyId store
    (∀ a b edgeType, Recorded store storyId a b edgeType ↔
        JoinedBy (allEdges nodes) a b edgeType) ∧
      storedOrigins store storyId = some (independentOrigins nodes (allEdges nodes)) ∧
      (nodes.length = 1 → storedOrigins store storyId = some 1) ∧
      storedOrigins (run (step d) {} shuffled).store other = storedOrigins store storyId ∧
      sourcesOf d.py other (run (step d) {} shuffled).store = sourcesOf d.py storyId store := by
  intro store nodes
  have batch : Batch d.py store storyId := run_batch fresh smooth
  have batch' := run_batch fresh' smooth'
  have origins := batch.origins inhabited
  have inhabited' : (run (step d) {} shuffled).store.members other ≠ [] := by
    obtain ⟨row, member⟩ := List.exists_mem_of_ne_nil _ inhabited
    have listed := (same row.item).mp (List.mem_map_of_mem member)
    exact fun none => by simp [memberItems, none] at listed
  have members node : node ∈ nodesOf d.py other (run (step d) {} shuffled).store ↔
      node ∈ nodes := by
    rw [batch'.mem_nodesOf, batch.mem_nodesOf]
    exact exists_congr fun item => and_congr_left fun _ => (same item).symm
  refine ⟨batch.edges, origins, fun single => ?_, ?_, ?_⟩
  · obtain ⟨node, only⟩ := List.length_eq_one_iff.mp single
    have ids : nodeIds nodes = {node.itemId} := by simp [only, nodeIds]
    rw [origins]
    change some (independentOrigins nodes (allEdges nodes)) = some 1
    rw [independentOrigins_eq, ids, classCount_singleton]
  · rw [batch'.origins inhabited', origins]
    apply congrArg some
    exact independentOrigins_congr members fun _ _ _ => joined_allEdges_congr members
  · refine distinctOriginSources_congr batch'.nodup batch.nodup members fun a b edgeType => ?_
    exact (batch'.edges a b edgeType).trans
      ((joined_allEdges_congr members).trans (batch.edges a b edgeType).symm)

/-- The third voice opens the Story, the first comes last. -/
def lastFirst : List Event :=
  [.write (report 3 "cat" "mastodon" .social), .write (report 2 "bob" "bluesky" .social),
    .write (report 1 "ann" "mastodon" .social),
    .deliver 2 { draw := ⟨0, 9⟩ }, .deliver 1 { draw := ⟨0, 8⟩, surfaced := [(3, 3)] },
    .deliver 0 { draw := ⟨0, 7⟩, surfaced := [(2, 2), (3, 3)] }]

theorem voices_in_any_order :
    storedOrigins (run (step threeVoices) {} lastFirst).store 9 =
        storedOrigins (run (step threeVoices) {} corroboration).store 7 ∧
      sourcesOf .plain 9 (run (step threeVoices) {} lastFirst).store =
        sourcesOf .plain 7 (run (step threeVoices) {} corroboration).store := by
  have items : memberItems (run (step threeVoices) {} corroboration).store 7 ⊆
      memberItems (run (step threeVoices) {} lastFirst).store 9 ∧
      memberItems (run (step threeVoices) {} lastFirst).store 9 ⊆
        memberItems (run (step threeVoices) {} corroboration).store 7 := by
    decide +kernel
  obtain ⟨forth, back⟩ := items
  exact (incremental_eq_batch threeVoices (by decide +kernel) (by decide +kernel)
    (fun none => absurd (congrArg List.length none) (by decide +kernel)) (by decide +kernel)
    (by decide +kernel) fun _ => ⟨fun member => forth member, fun member => back member⟩).2.2.2

/-- A report of another time under the same id. -/
def reportAt (time : Int) (enriched : EnrichedItem) : EnrichedItem :=
  { enriched with item := { enriched.item with tsObserved := ⟨time, 0⟩ } }

/-- Ann and cat report under one id, and cat replies to bob. -/
def sharedId : Deployment :=
  streamOf [reportAt 5 (report 1 "ann" "mastodon" .social), report 2 "bob" "bluesky" .social,
    report 1 "cat" "bluesky" .social (some "post:bob")]

/-- All three join one Story, cat last. -/
def catLast : List Event :=
  [.write (report 1 "cat" "bluesky" .social (some "post:bob")),
    .write (reportAt 5 (report 1 "ann" "mastodon" .social)),
    .write (report 2 "bob" "bluesky" .social),
    .deliver 0 { draw := ⟨0, 7⟩ }, .deliver 1 { draw := ⟨0, 8⟩, surfaced := [(1, 5)] },
    .deliver 2 { draw := ⟨0, 9⟩, surfaced := [(2, 2)] }]

/-- The new member is looked up by its id, which finds the other row of that id: the reply is
never stored, and two origins are counted where one pass over the members counts one. -/
theorem shared_id_parts :
    let store := (run (step sharedId) {} catLast).store
    let nodes := nodesOf sharedId.py 7 store
    Along (step sharedId) FreshDraw {} catLast ∧
      Along (step sharedId) (Unbroken sharedId 7) {} catLast ∧
      (∀ row ∈ store.items, row.storyId = some 7) ∧
      JoinedBy (allEdges nodes) 1 2 .ref ∧ ¬ Recorded store 7 1 2 .ref ∧
      storedOrigins store 7 = some 2 ∧ independentOrigins nodes (allEdges nodes) = 1 := by
  intro store nodes
  have recorded : ¬ JoinedBy ((storyEdges store 7).map provEdge) 1 2 .ref := by decide +kernel
  exact ⟨by decide +kernel, by decide +kernel, by decide +kernel, by decide +kernel, recorded,
    by decide +kernel, by decide +kernel⟩

end NewsAggregator.Cluster
