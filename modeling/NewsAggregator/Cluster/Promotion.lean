import NewsAggregator.Cluster.Consumer
import NewsAggregator.Trust.AllPairs

/-! The promotion gate over whole runs: what holds of a Story's members when its
state becomes corroborated. -/

namespace NewsAggregator.Cluster

open Trust Foundation

/-- The stored edges of the Story join the two items by this rule. -/
def Recorded (store : Store) (storyId a b : Uuid) (edgeType : EdgeType) : Prop :=
  JoinedBy ((storyEdges store storyId).map provEdge) a b edgeType

theorem recorded_iff {store : Store} {storyId a b : Uuid} {edgeType : EdgeType} :
    Recorded store storyId a b edgeType ↔ ∃ row ∈ store.provenanceEdges,
      row.storyId = storyId ∧ row.edgeType = edgeType ∧
        ((row.srcItem = a ∧ row.dstItem = b) ∨ (row.srcItem = b ∧ row.dstItem = a)) := by
  unfold Recorded JoinedBy storyEdges
  constructor
  · rintro ⟨edge, member, type, ends⟩
    obtain ⟨row, kept, rfl⟩ := List.mem_map.mp member
    have ⟨stored, same⟩ := List.mem_filter.mp kept
    exact ⟨row, stored, of_decide_eq_true same, type, ends⟩
  · rintro ⟨row, stored, same, type, ends⟩
    exact ⟨provEdge row, List.mem_map_of_mem (List.mem_filter.mpr ⟨stored, decide_eq_true same⟩),
      type, ends⟩

theorem Recorded.mono {before after : Store} {storyId a b : Uuid} {edgeType : EdgeType}
    (recorded : Recorded before storyId a b edgeType)
    (kept : before.provenanceEdges ⊆ after.provenanceEdges) :
    Recorded after storyId a b edgeType := by
  obtain ⟨row, stored, rest⟩ := recorded_iff.mp recorded
  exact recorded_iff.mpr ⟨row, kept stored, rest⟩

/-- `_update_trust` misses no fellow member of the item it recounts for. -/
theorem newEdges_complete (py : Python) {store : Store} {storyId : Uuid}
    (distinct : DistinctIds store) {a b : ItemRow} (aMember : a ∈ store.members storyId)
    (bMember : b ∈ store.members storyId) (different : a.item.id ≠ b.item.id)
    {edgeType : EdgeType} (depends : DependsBy (provNode py a) (provNode py b) edgeType) :
    ⟨storyId, a.item.id, b.item.id, edgeType, a.item.tsObserved.instant⟩ ∈
      newEdges py storyId a.item.id store := by
  have only {row : ItemRow} (member : row ∈ store.members storyId)
      (same : row.item.id = a.item.id) : row = a :=
    List.inj_on_of_nodup_map distinct (mem_members.mp member).1 (mem_members.mp aMember).1 same
  have known : a.item.id ∈ nodeIds (nodesOf py storyId store) :=
    mem_nodeIds.mpr ⟨provNode py a, List.mem_map_of_mem aMember, rfl⟩
  obtain ⟨newNode, node⟩ := exists_byId.mpr known
  obtain ⟨nodeMember, nodeId⟩ := byId_spec node
  obtain ⟨owner, ownerMember, rfl⟩ := List.mem_map.mp nodeMember
  cases only ownerMember nodeId
  have first : ∃ row, (store.members storyId).find? (fun row => row.item.id = a.item.id) =
      some row := by
    rw [← Option.isSome_iff_exists, List.find?_isSome]
    exact ⟨a, aMember, decide_eq_true rfl⟩
  obtain ⟨row, first⟩ := first
  have same := only (List.mem_of_find?_eq_some first) (by simpa using List.find?_some first)
  rw [same] at first
  refine mem_newEdges.mpr ⟨provNode py a, a, node, first, ⟨_, _, edgeType⟩,
    mem_detectEdges.mpr ⟨provNode py b, List.mem_map_of_mem bMember, different.symm, rfl, rfl,
      depends⟩, rfl⟩

/-- Two fellow members are joined by every rule by which they depend. -/
def PairRecorded (py : Python) (store : Store) (storyId : Uuid) (a b : ItemRow) : Prop :=
  ∀ edgeType, DependsBy (provNode py a) (provNode py b) edgeType →
    Recorded store storyId a.item.id b.item.id edgeType

instance (py : Python) (store : Store) (storyId : Uuid) (a b : ItemRow) :
    Decidable (PairRecorded py store storyId a b) :=
  inferInstanceAs (Decidable (∀ edgeType, _ → JoinedBy _ _ _ edgeType))

theorem PairRecorded.symm {py : Python} {store : Store} {storyId : Uuid} {a b : ItemRow}
    (recorded : PairRecorded py store storyId a b) : PairRecorded py store storyId b a :=
  fun edgeType depends => (recorded edgeType (dependsBy_comm.mp depends)).symm

section Attempt

variable {py : Python} {pg : Postgres} {cfg : Config} {draw : Draw}
  {surfaced : List (Uuid × Int)} {enriched : EnrichedItem} {cut : Option ℕ} {store final : Store}
  {result : Option Unit} {storyId : Uuid} {a b : ItemRow}

/-- A member of a Story after an attempt is the attempt's item or was one before. -/
theorem member_before (leaves : Leaves py pg cfg draw surfaced enriched cut store result final)
    (member : a ∈ final.members storyId) (other : a.key ≠ enriched.item.key) :
    a ∈ store.members storyId := by
  obtain ⟨present, joined⟩ := mem_members.mp member
  exact mem_members.mpr ⟨mem_items_before leaves present other, joined⟩

/-- An attempt that stored its edges joined its item to all fellow members. -/
theorem pair_linked (leaves : Leaves py pg cfg draw surfaced enriched cut store result final)
    (distinct : DistinctIds store) (stored : Stored store enriched.item.key)
    (reached : Program.Reached cut 5)
    (joins : targetOf py pg cfg draw surfaced enriched store = some storyId)
    (aMember : a ∈ final.members storyId) (bMember : b ∈ final.members storyId)
    (different : a.item.id ≠ b.item.id) (own : a.key = enriched.item.key) :
    PairRecorded py final storyId a b := by
  intro edgeType depends
  rcases leaves_edges leaves with ⟨_, none⟩ | ⟨_, _, target, chosen, inserted⟩
  · cases joins.symm.trans (none stored reached)
  · cases joins.symm.trans chosen
    have same : final.members storyId =
        (assigned py pg cfg draw surfaced enriched store).members storyId := by
      rw [Store.members, leaves_linked leaves stored reached, Store.members]
    rw [same] at aMember bMember
    have id : a.item.id = enriched.item.id := congrArg Prod.fst own
    have apart : DistinctIds (assigned py pg cfg draw surfaced enriched store) := by
      rw [DistinctIds, ids_assigned]
      exact distinct
    have added := newEdges_complete py apart aMember bMember different depends
    rw [id] at added
    exact recorded_iff.mpr ⟨_, (inserted _).mpr (.inr added), rfl, rfl, .inl ⟨id.symm, rfl⟩⟩

/-- An attempt that ran to its end joined its item to all fellow members. -/
theorem pair_ended
    (leaves : Leaves py pg cfg draw surfaced enriched cut store (some ()) final)
    (distinct : DistinctIds store) (fresh : ∀ row ∈ store.items, row.storyId ≠ some draw.uuid4)
    (aMember : a ∈ final.members storyId) (bMember : b ∈ final.members storyId)
    (different : a.item.id ≠ b.item.id) (own : a.key = enriched.item.key)
    (other : b.key ≠ enriched.item.key) : PairRecorded py final storyId a b := by
  obtain ⟨stored, reached, place⟩ := leaves_ended leaves
  obtain ⟨present, joined⟩ := mem_members.mp aMember
  obtain ⟨_, _, _, assigned⟩ := own_row_ended leaves present own
  have story := Option.some.inj (assigned.symm.trans joined)
  cases chosen : targetOf py pg cfg draw surfaced enriched store with
  | none =>
    rw [storyOf_opens chosen] at story
    have old := mem_members.mp (member_before leaves bMember other)
    exact absurd (story ▸ old.2) (fresh b old.1)
  | some target =>
    rw [storyOf_joins chosen] at story
    subst story
    have linked := place.resolve_left (by rw [chosen]; exact Option.some_ne_none _)
    exact pair_linked leaves distinct stored linked chosen aMember bMember different own

/-- A pair is joined by this attempt, which is about one of the two, or was before it. -/
theorem pair_after (leaves : Leaves py pg cfg draw surfaced enriched cut store result final)
    (aMember : a ∈ final.members storyId) (bMember : b ∈ final.members storyId)
    (aOwn : a.key = enriched.item.key → PairRecorded py final storyId a b)
    (bOwn : b.key = enriched.item.key → PairRecorded py final storyId b a)
    (old : a.key ≠ enriched.item.key → b.key ≠ enriched.item.key →
      a ∈ store.members storyId → b ∈ store.members storyId → PairRecorded py store storyId a b) :
    PairRecorded py final storyId a b := by
  by_cases first : a.key = enriched.item.key
  · exact aOwn first
  by_cases second : b.key = enriched.item.key
  · exact (bOwn second).symm
  have recorded := old first second (member_before leaves aMember first)
    (member_before leaves bMember second)
  exact fun edgeType depends => (recorded edgeType depends).mono (edges_subset_leaves leaves)

end Attempt

/-- Fellow members that do not wait have their edges stored. -/
def MembersRecorded (d : Deployment) (system : System) : Prop :=
  ∀ storyId, ∀ a ∈ system.store.members storyId, ∀ b ∈ system.store.members storyId,
    a.item.id ≠ b.item.id → ¬ Waits d system a.key → ¬ Waits d system b.key →
      PairRecorded d.py system.store storyId a b

/-- What the gate promises at a step that makes a rumor corroborated. -/
def GateHolds (d : Deployment) (system : System) (event : Event) : Prop :=
  ∀ storyId, storyState system.store storyId = .rumor →
    storyState (step d system event).store storyId = .corroborated →
      let nodes := nodesOf d.py storyId (step d system event).store
      d.cfg.corroborationN ≤ independentOrigins nodes (allEdges nodes) ∧
        d.cfg.corroborationSources ≤ (nodes.map ProvNode.source).toFinset.card

/-- Items have their own ids. When a rumor is recounted, a fellow member that
waits for its redelivery has its edges to the other members stored already. -/
def Accounted (d : Deployment) (system : System) : Event → Prop
  | .deliver seq attempt => ∀ enriched ∈ d.item seq, Program.Reached attempt.cut 8 →
      ∀ storyId ∈ targetOf d.py d.pg d.cfg attempt.draw attempt.surfaced enriched system.store,
        storyState system.store storyId = .rumor →
        ∀ a ∈ system.store.members storyId, a.key ≠ enriched.item.key → Waits d system a.key →
          ∀ b ∈ system.store.members storyId, b.key ≠ enriched.item.key →
            a.item.id ≠ b.item.id → PairRecorded d.py system.store storyId a b
  | event => OwnId system event

instance (d : Deployment) (system : System) : DecidablePred (Accounted d system)
  | .write enriched => inferInstanceAs (Decidable (OwnId system (.write enriched)))
  | .promote _ => isTrue trivial
  | .deliver seq _ => inferInstanceAs (Decidable (∀ enriched ∈ d.item seq, _))

section Run

variable {d : Deployment} {system : System}

theorem Accounted.ownId {event : Event} (accounted : Accounted d system event) :
    OwnId system event := by
  cases event with
  | write enriched => exact accounted
  | promote storyId => exact accounted
  | deliver seq attempt => trivial

private theorem deliver_membersRecorded {seq : ℕ} {attempt : Attempt}
    (distinct : DistinctIds system.store) (recorded : MembersRecorded d system)
    (fresh : FreshDraw system (.deliver seq attempt)) :
    MembersRecorded d (step d system (.deliver seq attempt)) := by
  cases handled : d.item seq with
  | none =>
    rw [step_dropped handled]
    intro storyId a aMember b bMember different aSettled bSettled
    refine recorded storyId a aMember b bMember different (fun waits => aSettled ?_)
      fun waits => bSettled ?_
    all_goals exact waits.erase (fun enriched item => nomatch handled.symm.trans item) _ _
  | some enriched =>
    obtain ⟨result, final, _, leaves, next⟩ :=
      step_handled system attempt handled
    rw [next]
    intro storyId a aMember b bMember different aSettled bSettled
    rw [System.settle_store] at aMember bMember ⊢
    have ended {x : ItemRow} (key : x.key = enriched.item.key)
        (settled : ¬ Waits d (system.settle seq result final) x.key) : result = some () := by
      cases result with
      | none => exact absurd (key ▸ waits_failed handled final) settled
      | some _ => rfl
    apply pair_after leaves aMember bMember
    · intro aOwn
      have bOther : b.key ≠ enriched.item.key := fun bOwn =>
        different (congrArg Prod.fst (aOwn.trans bOwn.symm))
      cases ended aOwn aSettled
      exact pair_ended leaves distinct fresh.2 aMember bMember different aOwn bOther
    · intro bOwn
      have aOther : a.key ≠ enriched.item.key := fun aOwn =>
        different (congrArg Prod.fst (aOwn.trans bOwn.symm))
      cases ended bOwn bSettled
      exact pair_ended leaves distinct fresh.2 bMember aMember different.symm bOwn aOther
    · intro aOther bOther aBefore bBefore
      exact recorded storyId a aBefore b bBefore different
        (fun waits => aSettled (waits.settle handled aOther result final))
        fun waits => bSettled (waits.settle handled bOther result final)

theorem step_membersRecorded {event : Event} (distinct : DistinctIds system.store)
    (recorded : MembersRecorded d system) (fresh : FreshDraw system event) :
    MembersRecorded d (step d system event) := by
  cases event with
  | write enriched =>
    intro storyId a aMember b bMember different aSettled bSettled edgeType depends
    rw [step, members_insertItem] at aMember bMember
    have old := recorded storyId a aMember b bMember different aSettled bSettled edgeType depends
    apply old.mono
    rw [step, edges_insertItem]
    exact List.Subset.refl _
  | promote storyId => exact recorded
  | deliver seq attempt => exact deliver_membersRecorded distinct recorded fresh

private theorem deliver_gateHolds {seq : ℕ} {attempt : Attempt}
    (distinct : DistinctIds system.store) (recorded : MembersRecorded d system)
    (accounted : Accounted d system (.deliver seq attempt)) :
    GateHolds d system (.deliver seq attempt) := by
  intro storyId rumor corroborated
  cases handled : d.item seq with
  | none =>
    rw [step_dropped handled, rumor] at corroborated
    cases corroborated
  | some enriched =>
    obtain ⟨result, final, _, leaves, next⟩ :=
      step_handled system attempt handled
    rw [next, System.settle_store] at corroborated ⊢
    rcases leaves_trust leaves storyId with same | ⟨stored, reached, joins, before, items, edges,
      sameState, state⟩
    · rw [corroborated, rumor] at same
      cases same
    have members : before.members storyId = final.members storyId := by
      rw [Store.members, items, Store.members]
    have nodes : nodesOf d.py storyId before = nodesOf d.py storyId final := by
      rw [nodesOf, members, nodesOf]
    have stored_edges : storyEdges before storyId = storyEdges final storyId := by
      rw [storyEdges, edges, storyEdges]
    rw [state, stateOf, sameState, rumor] at corroborated
    obtain ⟨origins, sources⟩ := nextState_corroborated corroborated
    rw [originsOf, nodes, stored_edges] at origins
    rw [sourcesOf, nodes, stored_edges] at sources
    refine ⟨origins.trans (independentOrigins_le_allEdges ?_),
      sources.trans (distinctOriginSources_le _ _)⟩
    intro x xMember y yMember different
    obtain ⟨a, aMember, rfl⟩ := List.mem_map.mp xMember
    obtain ⟨b, bMember, rfl⟩ := List.mem_map.mp yMember
    have edgesReached : Program.Reached attempt.cut 5 := reached.of_le (by omega)
    apply pair_after leaves aMember bMember
    · exact pair_linked leaves distinct stored edgesReached joins aMember bMember different
    · exact pair_linked leaves distinct stored edgesReached joins bMember aMember different.symm
    · -- an older pair was joined by an earlier attempt, or before a failure
      intro aOther bOther aBefore bBefore
      have waiting := accounted enriched handled reached storyId joins rumor
      by_cases aWaits : Waits d system a.key
      · exact waiting a aBefore aOther aWaits b bBefore bOther different
      · by_cases bWaits : Waits d system b.key
        · exact (waiting b bBefore bOther bWaits a aBefore aOther different.symm).symm
        · exact recorded storyId a aBefore b bBefore different aWaits bWaits

theorem step_gateHolds {event : Event} (distinct : DistinctIds system.store)
    (recorded : MembersRecorded d system) (accounted : Accounted d system event) :
    GateHolds d system event := by
  cases event with
  | write enriched =>
    intro storyId rumor corroborated
    have same : storyState (insertItem system.store enriched) storyId =
        storyState system.store storyId := by
      simp [storyState, Store.storyRow]
    rw [step, same, rumor] at corroborated
    cases corroborated
  | promote target =>
    intro storyId rumor corroborated
    rw [step] at corroborated
    unfold storyState at rumor corroborated
    rw [storyRow_promotePrimaryBacked] at corroborated
    cases found : system.store.storyRow storyId with
    | none =>
      rw [found] at corroborated
      cases corroborated
    | some row =>
      rw [found, Option.elim_some] at rumor
      rw [found, Option.map_some, Option.elim_some] at corroborated
      split at corroborated
      · cases corroborated
      · cases rumor.symm.trans corroborated
  | deliver seq attempt => exact deliver_gateHolds distinct recorded accounted

/-- Whenever a write makes a rumor corroborated, its members have enough truly
independent origins and sources, if every recount accounts for waiting members. -/
theorem promotion_gate_sound (d : Deployment) (events : List Event)
    (fresh : Along (step d) FreshDraw {} events)
    (accounted : Along (step d) (Accounted d) {} events) :
    Along (step d) (GateHolds d) {} events :=
  (fresh.and accounted).consequence
    (fun system => DistinctIds system.store ∧ MembersRecorded d system)
    ⟨by simp [DistinctIds], by simp [MembersRecorded, Store.members]⟩
    (fun _ _ holds meets => ⟨step_distinctIds holds.1 meets.2.ownId,
      step_membersRecorded holds.1 holds.2 meets.1⟩)
    fun _ _ holds meets => step_gateHolds holds.1 holds.2 meets.2

end Run

/-- Three accounts on two platforms. -/
def threeVoices : Deployment :=
  streamOf [report 1 "ann" "mastodon" .social, report 2 "bob" "bluesky" .social,
    report 3 "cat" "mastodon" .social]

/-- The third voice corroborates the Story. -/
def corroboration : List Event :=
  [.write (report 1 "ann" "mastodon" .social), .write (report 2 "bob" "bluesky" .social),
    .write (report 3 "cat" "mastodon" .social),
    .deliver 0 { draw := ⟨0, 7⟩ }, .deliver 1 { draw := ⟨0, 8⟩, surfaced := [(1, 1)] },
    .deliver 2 { draw := ⟨0, 9⟩, surfaced := [(1, 1), (2, 2)] }]

theorem corroboration_sound : Along (step threeVoices) (GateHolds threeVoices) {} corroboration :=
  promotion_gate_sound threeVoices corroboration (by decide +kernel) (by decide +kernel)

/-- The third message is a reply to the second, the fourth repeats the first voice. -/
def replyAndEcho : Deployment :=
  streamOf [report 1 "ann" "mastodon" .social, report 2 "bob" "bluesky" .social,
    report 3 "cat" "mastodon" .social (some "post:bob"), report 4 "ann" "mastodon" .social]

/-- The reply fails right after it was assigned; the echo triggers a recount. -/
def countedTooSoon : List Event :=
  [.write (report 1 "ann" "mastodon" .social), .write (report 2 "bob" "bluesky" .social),
    .write (report 3 "cat" "mastodon" .social (some "post:bob")),
    .write (report 4 "ann" "mastodon" .social),
    .deliver 0 { draw := ⟨0, 7⟩ }, .deliver 1 { draw := ⟨0, 8⟩, surfaced := [(1, 1)] },
    .deliver 2 { draw := ⟨0, 9⟩, surfaced := [(1, 1)], cut := some 2 }]

/-- Two origins corroborate the Story. -/
theorem gate_counts_too_soon :
    Along (step replyAndEcho) FreshDraw {} (countedTooSoon ++
        [.deliver 3 { draw := ⟨0, 10⟩, surfaced := [(1, 1)] }]) ∧
      ¬ Along (step replyAndEcho) (GateHolds replyAndEcho) {} (countedTooSoon ++
        [.deliver 3 { draw := ⟨0, 10⟩, surfaced := [(1, 1)] }]) := by
  refine ⟨by decide +kernel, fun sound => ?_⟩
  have gate := (along_concat.mp sound).2 7 (by decide +kernel) (by decide +kernel)
  exact absurd gate.1 (by decide +kernel)

end NewsAggregator.Cluster
