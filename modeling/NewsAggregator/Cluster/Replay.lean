import NewsAggregator.Cluster.Consumer

/-! What a redelivery of a handled message can change: the Story of its item, the
Story rows without a member, and the edges between two items. -/

namespace NewsAggregator.Cluster

open Trust Foundation

def NoOrphans (store : Store) : Prop :=
  ∀ story ∈ store.stories, ∃ row ∈ store.items, row.storyId = some story.id

def SamePair (e f : EdgeRow) : Prop :=
  (e.srcItem = f.srcItem ∧ e.dstItem = f.dstItem) ∨ (e.srcItem = f.dstItem ∧ e.dstItem = f.srcItem)

instance (e f : EdgeRow) : Decidable (SamePair e f) := inferInstanceAs (Decidable (_ ∨ _))

/-- At most one edge for an unordered pair of items and a type. -/
def OneEdgePerPair (store : Store) : Prop :=
  ∀ e ∈ store.provenanceEdges, ∀ f ∈ store.provenanceEdges, SamePair e f →
    e.edgeType = f.edgeType → e = f

/-- Every item is in the Story it was in, and there are the same Story rows. -/
def Inert (before after : Store) : Prop :=
  after.items.map (fun row => (row.key, row.storyId)) =
      before.items.map (fun row => (row.key, row.storyId)) ∧
    after.stories.map StoryRow.id = before.stories.map StoryRow.id

/-- What the property asks of one step. -/
def Idempotent (d : Deployment) (system : System) (event : Event) : Prop :=
  NoOrphans (step d system event).store ∧ OneEdgePerPair (step d system event).store ∧
    match event with
    | .deliver seq _ => seq ∈ system.acked → Inert system.store (step d system event).store
    | _ => True

section Conditions

variable (py : Python) (pg : Postgres) (cfg : Config) (draw : Draw)
  (surfaced : List (Uuid × Int)) (enriched : EnrichedItem) (store : Store)

/-- The attempt chooses the Story its item is in. -/
def ChoosesOwn : Prop :=
  ∀ row ∈ store.items, row.key = enriched.item.key → row.storyId.isSome ∧
    targetOf py pg cfg draw surfaced enriched store = row.storyId

/-- A Story the attempt takes its item away from has no row, or another member. -/
def LeavesNoneBehind : Prop :=
  ∀ row ∈ store.items, row.key = enriched.item.key → ∀ left ∈ row.storyId,
    left ≠ storyOf py pg cfg draw surfaced enriched store →
      store.storyRow left = none ∨
        ∃ other ∈ store.items, other.key ≠ enriched.item.key ∧ other.storyId = some left

/-- No stored edge joins the item to a member it depends on, other than the edge
the attempt stores itself. -/
def LinksAnew : Prop :=
  Stored store enriched.item.key →
    ∀ storyId ∈ targetOf py pg cfg draw surfaced enriched store,
      ∀ edge ∈ newEdges py storyId enriched.item.id
          (assigned py pg cfg draw surfaced enriched store),
        ∀ old ∈ store.provenanceEdges, SamePair old edge → old.edgeType = edge.edgeType →
          old = edge

instance : Decidable (ChoosesOwn py pg cfg draw surfaced enriched store) :=
  inferInstanceAs (Decidable (∀ row ∈ store.items, _))

instance : Decidable (LeavesNoneBehind py pg cfg draw surfaced enriched store) :=
  inferInstanceAs (Decidable (∀ row ∈ store.items, _))

instance : Decidable (LinksAnew py pg cfg draw surfaced enriched store) :=
  inferInstanceAs (Decidable (Stored store enriched.item.key → _))

end Conditions

/-- A redelivery chooses the item's own Story; no attempt leaves a Story row
without a member, or finds an edge it would store in another form. -/
def Replayable (d : Deployment) (system : System) : Event → Prop
  | .deliver seq attempt => ∀ enriched ∈ d.item seq,
      (Program.Reached attempt.cut 2 →
        (seq ∈ system.acked →
          ChoosesOwn d.py d.pg d.cfg attempt.draw attempt.surfaced enriched system.store) ∧
        LeavesNoneBehind d.py d.pg d.cfg attempt.draw attempt.surfaced enriched system.store) ∧
      (Program.Reached attempt.cut 5 →
        LinksAnew d.py d.pg d.cfg attempt.draw attempt.surfaced enriched system.store)
  | _ => True

instance (d : Deployment) (system : System) : DecidablePred (Replayable d system)
  | .write _ => isTrue trivial
  | .promote _ => isTrue trivial
  | .deliver seq _ => inferInstanceAs (Decidable (∀ enriched ∈ d.item seq, _))

section Attempt

variable {py : Python} {pg : Postgres} {cfg : Config} {draw : Draw}
  {surfaced : List (Uuid × Int)} {enriched : EnrichedItem} {cut : Option ℕ} {store final : Store}
  {result : Option Unit}

/-- The edges of one insertion differ in their pair or their type. -/
theorem newEdges_distinct {storyId itemId : Uuid} {e f : EdgeRow}
    (eNew : e ∈ newEdges py storyId itemId store) (fNew : f ∈ newEdges py storyId itemId store)
    (pair : SamePair e f) (type : e.edgeType = f.edgeType) : e = f := by
  have other := newEdges_spec fNew
  obtain ⟨newNode, row, node, first, edge, detected, rfl⟩ := mem_newEdges.mp eNew
  obtain ⟨newNode', row', node', first', edge', detected', rfl⟩ := mem_newEdges.mp fNew
  cases node.symm.trans node'
  cases first.symm.trans first'
  have own := newEdges_spec eNew
  rcases pair with ⟨sameSrc, sameDst⟩ | ⟨crossed, _⟩
  · simp only at sameSrc sameDst type
    rw [sameSrc, sameDst, type]
  · exact absurd (crossed.symm.trans own.2.1) other.2.2

theorem oneEdgePerPair_iff
    (leaves : Leaves py pg cfg draw surfaced enriched cut store result final)
    (one : OneEdgePerPair store) :
    OneEdgePerPair final ↔
      (Program.Reached cut 5 → LinksAnew py pg cfg draw surfaced enriched store) := by
  rcases leaves_edges leaves with ⟨same, none⟩ | ⟨stored, reached, storyId, joins, inserted⟩
  · constructor
    · intro _ reached stored storyId joins
      rw [none stored reached] at joins
      cases joins
    · intro _
      rw [OneEdgePerPair]
      rwa [same]
  · constructor
    · intro holds _ _ other chosen edge new old present pair type
      cases joins.symm.trans chosen
      exact holds old ((inserted old).mpr (.inl present)) edge ((inserted edge).mpr (.inr new)) pair
        type
    · intro anew e eMember f fMember pair type
      have anew := anew reached stored storyId joins
      rcases (inserted e).mp eMember with eOld | eNew
      · rcases (inserted f).mp fMember with fOld | fNew
        · exact one e eOld f fOld pair type
        · exact anew f fNew e eOld pair type
      · rcases (inserted f).mp fMember with fOld | fNew
        · have swapped : SamePair f e := by
            rcases pair with ⟨src, dst⟩ | ⟨src, dst⟩
            · exact .inl ⟨src.symm, dst.symm⟩
            · exact .inr ⟨dst.symm, src.symm⟩
          exact (anew e eNew f fOld swapped type.symm).symm
        · exact newEdges_distinct eNew fNew pair type

private theorem placement_assigned :
    (assigned py pg cfg draw surfaced enriched store).items.map
          (fun row => (row.key, row.storyId)) =
        store.items.map (fun row => (row.key, row.storyId)) ↔
      ∀ row ∈ store.items, row.key = enriched.item.key →
        row.storyId = some (storyOf py pg cfg draw surfaced enriched store) := by
  rw [assigned, assignItem]
  rw [List.map_map, List.map_inj_left]
  apply forall₂_congr
  intro row member
  simp only [Function.comp_apply]
  by_cases own : row.key = enriched.item.key
  · rw [if_pos own]
    simp only [own, true_imp_iff]
    constructor
    · intro same
      exact (congrArg Prod.snd same).symm
    · intro same
      rw [same, ← own]
      rfl
  · rw [if_neg own]
    simp [own]

theorem inert_iff (leaves : Leaves py pg cfg draw surfaced enriched cut store result final)
    (fresh : ∀ row ∈ store.items, row.storyId ≠ some draw.uuid4) :
    Inert store final ↔
      (Program.Reached cut 2 → ChoosesOwn py pg cfg draw surfaced enriched store) := by
  rcases leaves_items leaves with ⟨rfl, _, early⟩ | ⟨stored, reached, items⟩
  · refine ⟨fun _ reached row member own => ?_, fun _ => ⟨rfl, rfl⟩⟩
    exact absurd reached (early ⟨row, member, own⟩)
  · rw [Inert]
    rw [items, placement_assigned]
    constructor
    · rintro ⟨kept, _⟩ _ row member own
      have same := kept row member own
      refine ⟨by rw [same]; rfl, ?_⟩
      cases chosen : targetOf py pg cfg draw surfaced enriched store with
      | none =>
        rw [storyOf_opens chosen] at same
        exact absurd same (fresh row member)
      | some storyId => rw [same, storyOf_joins chosen]
    · intro own
      have own := own reached
      have joins {row : ItemRow} (member : row ∈ store.items) (key : row.key = enriched.item.key) :
          ∃ storyId, row.storyId = some storyId ∧
            targetOf py pg cfg draw surfaced enriched store = some storyId := by
        obtain ⟨present, same⟩ := own row member key
        obtain ⟨storyId, held⟩ := Option.isSome_iff_exists.mp present
        exact ⟨storyId, held, same.trans held⟩
      constructor
      · intro row member key
        obtain ⟨storyId, held, chosen⟩ := joins member key
        rw [held, storyOf_joins chosen]
      · rcases leaves_stories leaves with same | ⟨_, opens, _⟩
        · exact same
        · obtain ⟨row, member, key⟩ := stored
          obtain ⟨storyId, _, chosen⟩ := joins member key
          cases opens.symm.trans chosen

/-- A Story whose item was taken away had no row, or keeps another member. -/
private theorem leavesNoneBehind_of_noOrphans
    (leaves : Leaves py pg cfg draw surfaced enriched cut store result final)
    (items : final.items = (assigned py pg cfg draw surfaced enriched store).items)
    (whole : NoOrphans final) : LeavesNoneBehind py pg cfg draw surfaced enriched store := by
  intro row member own left was moved
  cases found : store.storyRow left with
  | none => exact .inl rfl
  | some story =>
    refine .inr ?_
    have id : story.id = left := by simpa using List.find?_some found
    have listed : left ∈ store.stories.map StoryRow.id :=
      List.mem_map.mpr ⟨story, List.mem_of_find?_eq_some found, id⟩
    have kept : left ∈ final.stories.map StoryRow.id := by
      rcases leaves_stories leaves with same | ⟨_, _, _, rfl⟩
      · exact same ▸ listed
      · exact mem_ids_created.mpr (.inl listed)
    obtain ⟨after, afterMember, same⟩ := List.mem_map.mp kept
    obtain ⟨last, lastMember, joined⟩ := whole after afterMember
    rw [items] at lastMember
    rw [same] at joined
    obtain ⟨old, oldMember, _, ⟨_, assigned, _⟩ | ⟨other, rfl⟩⟩ := mem_assigned lastMember
    · exact absurd (Option.some.inj (joined.symm.trans assigned)) moved
    · exact ⟨last, oldMember, other, joined⟩

private theorem noOrphans_of_leavesNoneBehind
    (leaves : Leaves py pg cfg draw surfaced enriched cut store result final)
    (stored : Stored store enriched.item.key)
    (items : final.items = (assigned py pg cfg draw surfaced enriched store).items)
    (whole : NoOrphans store) (behind : LeavesNoneBehind py pg cfg draw surfaced enriched store) :
    NoOrphans final := by
  intro story member
  have present : story.id ∈ store.stories.map StoryRow.id ∨
      story.id = storyOf py pg cfg draw surfaced enriched store := by
    have listed := List.mem_map_of_mem (f := StoryRow.id) member
    rcases leaves_stories leaves with same | ⟨_, opens, _, rfl⟩
    · exact .inl (same ▸ listed)
    · rw [storyOf_opens opens]
      exact mem_ids_created.mp listed
  by_cases own : story.id = storyOf py pg cfg draw surfaced enriched store
  · obtain ⟨row, present, _⟩ := exists_member stored
      (storyOf py pg cfg draw surfaced enriched store)
      (toSigned64 (Dedup.simhash64 py enriched.item.text)) (wireRef py enriched.item.text)
    rw [mem_members] at present
    rw [own]
    exact ⟨row, items ▸ present.1, present.2⟩
  · obtain ⟨before, beforeMember, same⟩ := List.mem_map.mp (present.resolve_right own)
    obtain ⟨row, rowMember, joined⟩ := whole before beforeMember
    rw [same] at joined
    by_cases key : row.key = enriched.item.key
    · rcases behind row rowMember key story.id joined own with gone | ⟨other, present, rest⟩
      · exact absurd same (storyRow_eq_none.mp gone before beforeMember)
      · exact ⟨other, items ▸ stays_assigned present rest.1, rest.2⟩
    · exact ⟨row, items ▸ stays_assigned rowMember key, joined⟩

theorem noOrphans_iff (leaves : Leaves py pg cfg draw surfaced enriched cut store result final)
    (whole : NoOrphans store) :
    NoOrphans final ↔
      (Program.Reached cut 2 → LeavesNoneBehind py pg cfg draw surfaced enriched store) := by
  rcases leaves_items leaves with ⟨rfl, _, early⟩ | ⟨stored, reached, items⟩
  · refine ⟨fun _ reached row member own => ?_, fun _ => whole⟩
    exact absurd reached (early ⟨row, member, own⟩)
  · constructor
    · exact fun holds _ => leavesNoneBehind_of_noOrphans leaves items holds
    · exact fun behind =>
        noOrphans_of_leavesNoneBehind leaves stored items whole (behind reached)

end Attempt

section Run

variable {d : Deployment} {system : System}

theorem NoOrphans.of_ids {before after : Store} (whole : NoOrphans before)
    (ids : after.stories.map StoryRow.id = before.stories.map StoryRow.id)
    (items : before.items ⊆ after.items) : NoOrphans after := by
  intro story member
  have id : story.id ∈ before.stories.map StoryRow.id := ids ▸ List.mem_map_of_mem member
  obtain ⟨old, oldMember, same⟩ := List.mem_map.mp id
  obtain ⟨row, rowMember, joined⟩ := whole old oldMember
  exact ⟨row, items rowMember, joined.trans (congrArg some same)⟩

theorem idempotent_iff_replayable {event : Event} (whole : NoOrphans system.store)
    (one : OneEdgePerPair system.store) (fresh : FreshDraw system event) :
    Idempotent d system event ↔ Replayable d system event := by
  cases event with
  | write enriched =>
    refine ⟨fun _ => trivial, fun _ => ⟨?_, ?_, trivial⟩⟩
    · refine whole.of_ids (by simp [step]) ?_
      rw [step, insertItem]
      dsimp only
      split
      · exact List.Subset.refl _
      · exact List.subset_append_left _ _
    · rw [OneEdgePerPair, step]
      rw [edges_insertItem]
      exact one
  | promote storyId =>
    refine ⟨fun _ => trivial, fun _ => ⟨?_, one, trivial⟩⟩
    exact whole.of_ids (ids_updateStory storyId fun _ => rfl) (List.Subset.refl _)
  | deliver seq attempt =>
    unfold Idempotent Replayable
    cases handled : d.item seq with
    | none =>
      rw [step_dropped handled]
      refine ⟨fun _ enriched item => ?_, fun _ => ⟨whole, one, fun _ => ⟨rfl, rfl⟩⟩⟩
      cases handled.symm.trans item
    | some enriched =>
      obtain ⟨result, final, _, leaves, next⟩ :=
        step_handled system attempt handled
      rw [next]
      simp only [System.settle_store, handled, Option.mem_def, Option.some.injEq, forall_eq']
      rw [noOrphans_iff leaves whole, oneEdgePerPair_iff leaves one, inert_iff leaves fresh.2]
      constructor
      · rintro ⟨behind, anew, own⟩
        exact ⟨fun reached => ⟨fun acked => own acked reached, behind reached⟩, anew⟩
      · rintro ⟨assigning, anew⟩
        exact ⟨fun reached => (assigning reached).2, anew,
          fun acked reached => (assigning reached).1 acked⟩

/-- Replays are idempotent along a run exactly when every attempt is replayable. -/
theorem replays_idempotent_iff (d : Deployment) (events : List Event)
    (fresh : Along (step d) FreshDraw {} events) :
    Along (step d) (Idempotent d) {} events ↔ Along (step d) (Replayable d) {} events := by
  refine along_congr fresh (fun system => NoOrphans system.store ∧ OneEdgePerPair system.store)
    ⟨by simp [NoOrphans], by simp [OneEdgePerPair]⟩
    (fun _ _ holds drawn => idempotent_iff_replayable holds.1 holds.2 drawn) ?_
  intro system event _ idempotent
  exact ⟨idempotent.1, idempotent.2.1⟩

end Run

/-- The first report comes back while the second one is in its Story. -/
def secondVisit : List Event :=
  [.write (report 1 "ann" "mastodon" .social), .write (report 2 "bob" "bluesky" .social),
    .deliver 0 { draw := ⟨0, 7⟩ }, .deliver 1 { draw := ⟨0, 8⟩, surfaced := [(1, 1)] },
    .deliver 0 { draw := ⟨0, 9⟩, surfaced := [(2, 2)] }]

theorem second_visit_idempotent :
    Along (step twoReports) (Idempotent twoReports) {} secondVisit :=
  (replays_idempotent_iff twoReports secondVisit (by decide +kernel)).mpr (by decide +kernel)

/-- The only member of a Story comes back. -/
def loneReplay : List Event :=
  [.write (report 1 "ann" "mastodon" .social), .deliver 0 { draw := ⟨0, 7⟩ },
    .deliver 0 { draw := ⟨0, 8⟩ }]

/-- It opens a second Story and leaves the first without a member. -/
theorem lone_replay_orphans :
    Along (step twoReports) FreshDraw {} loneReplay ∧
      ¬ Along (step twoReports) (Idempotent twoReports) {} loneReplay := by
  refine ⟨by decide +kernel, fun idempotent => ?_⟩
  have whole : NoOrphans (run (step twoReports) {} loneReplay).store := idempotent.2.2.1.1
  have orphan : ∃ story ∈ (run (step twoReports) {} loneReplay).store.stories,
      ∀ row ∈ (run (step twoReports) {} loneReplay).store.items,
        row.storyId ≠ some story.id := by decide +kernel
  obtain ⟨story, member, alone⟩ := orphan
  obtain ⟨row, rowMember, joined⟩ := whole story member
  exact alone row rowMember joined

end NewsAggregator.Cluster
