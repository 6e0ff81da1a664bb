import NewsAggregator.Cluster.Consumer

/-! Every clustered item has a Story row that names its source and entities: what
of it survives interrupted attempts. -/

namespace NewsAggregator.Cluster

open Trust Foundation

/-- The Story has a row that holds the source and the entities. -/
def Covers (store : Store) (storyId : Uuid) (source : String) (entities : Finset String) : Prop :=
  ∃ row, store.storyRow storyId = some row ∧ source ∈ row.sourceSet ∧ entities ⊆ row.entitySet

/-- Every clustered item is covered by the row of its Story. -/
def RowsCovered (py : Python) (store : Store) : Prop :=
  ∀ row ∈ store.items, ∀ storyId, row.storyId = some storyId →
    Covers store storyId row.item.source (entityTexts py row.item.entities)

/-- An attempt that runs to its end joins only a Story with a row, and its message
says what the stored row says. -/
def Grounded (d : Deployment) (system : System) : Event → Prop
  | .deliver seq attempt => ∀ enriched ∈ d.item seq,
      (d.attempt attempt enriched system.store).1.isSome →
      (∀ storyId ∈ targetOf d.py d.pg d.cfg attempt.draw attempt.surfaced enriched system.store,
        (system.store.storyRow storyId).isSome) ∧
      ∀ row ∈ system.store.items, row.key = enriched.item.key →
        row.item.source = enriched.item.source ∧
          entityTexts d.py row.item.entities ⊆ entityTexts d.py enriched.item.entities
  | _ => True

instance (d : Deployment) (system : System) : DecidablePred (Grounded d system)
  | .write _ => isTrue trivial
  | .promote _ => isTrue trivial
  | .deliver seq attempt => inferInstanceAs (Decidable (∀ enriched ∈ d.item seq,
      (d.attempt attempt enriched system.store).1.isSome → _))

/-- It holds of a clustered row and its Story, unless the row's message waits. -/
def HoldsOrWaits (holds : Store → ItemRow → Uuid → Prop) (d : Deployment) (system : System) :
    Prop :=
  ∀ row ∈ system.store.items, ∀ storyId, row.storyId = some storyId →
    Waits d system row.key ∨ holds system.store row storyId

/-- A clustered row is covered, unless its message waits. -/
def CoveredOrWaiting (d : Deployment) (system : System) : Prop :=
  HoldsOrWaits (fun store row storyId =>
    Covers store storyId row.item.source (entityTexts d.py row.item.entities)) d system

section Frame

variable {py : Python} {pg : Postgres} {cfg : Config} {draw : Draw}
  {surfaced : List (Uuid × Int)} {enriched : EnrichedItem} {cut : Option ℕ} {store final : Store}
  {result : Option Unit} {storyId other : Uuid} {source : String} {entities : Finset String}

/-- What the Story's row holds, if it has one, it still does. -/
structure KeepsRow (store final : Store) (storyId : Uuid) : Prop where
  kept : ∀ row, store.storyRow storyId = some row → ∃ kept, final.storyRow storyId = some kept ∧
    row.sourceSet ⊆ kept.sourceSet ∧ row.entitySet ⊆ kept.entitySet

theorem KeepsRow.of_same (same : final.storyRow storyId = store.storyRow storyId) :
    KeepsRow store final storyId :=
  ⟨fun row found => ⟨row, same.trans found, Finset.Subset.refl _, Finset.Subset.refl _⟩⟩

theorem KeepsRow.trans {middle : Store} (earlier : KeepsRow store middle storyId)
    (later : KeepsRow middle final storyId) : KeepsRow store final storyId := by
  refine ⟨fun row found => ?_⟩
  obtain ⟨between, there, named, held⟩ := earlier.kept row found
  obtain ⟨kept, last, sources, entities⟩ := later.kept between there
  exact ⟨kept, last, named.trans sources, held.trans entities⟩

theorem KeepsRow.covers (keeps : KeepsRow store final storyId)
    (covers : Covers store storyId source entities) : Covers final storyId source entities := by
  obtain ⟨row, found, named, held⟩ := covers
  obtain ⟨kept, there, sources, more⟩ := keeps.kept row found
  exact ⟨kept, there, sources named, held.trans more⟩

theorem KeepsRow.isSome (keeps : KeepsRow store final storyId)
    (present : (store.storyRow storyId).isSome) : (final.storyRow storyId).isSome := by
  obtain ⟨row, found⟩ := Option.isSome_iff_exists.mp present
  obtain ⟨kept, there, _⟩ := keeps.kept row found
  exact Option.isSome_of_mem there

/-- A change of rows that takes none of their sources and entities. -/
theorem keepsRow_map {change : StoryRow → StoryRow}
    (mapped : final.storyRow storyId = (store.storyRow storyId).map change)
    (grows : ∀ row, row.sourceSet ⊆ (change row).sourceSet ∧
      row.entitySet ⊆ (change row).entitySet) : KeepsRow store final storyId :=
  ⟨fun row found => ⟨change row, by rw [mapped, found]; rfl, grows row⟩⟩

theorem keepsRow_touchStory (store : Store) (storyId other : Uuid) (lastSeen : Int)
    (source : String) (entities : Finset String) :
    KeepsRow store (touchStory store other lastSeen source entities) storyId := by
  apply keepsRow_map (storyRow_touchStory ..)
  intro row
  split
  · exact ⟨Finset.subset_union_left, Finset.subset_union_left⟩
  · exact ⟨Finset.Subset.refl _, Finset.Subset.refl _⟩

theorem keepsRow_counted (store : Store) (storyId other : Uuid) :
    KeepsRow store (counted py cfg other store) storyId := by
  apply keepsRow_map (storyRow_counted ..)
  intro row
  split <;> exact ⟨Finset.Subset.refl _, Finset.Subset.refl _⟩

/-- The edges and the recount after them leave a row its sources and entities. -/
theorem keepsRow_recount (itemId : Uuid) (store : Store) (other : Uuid) (heavy : List ClaimRequest) :
    KeepsRow store { counted py cfg other (linked py other itemId store) with heavy := heavy }
      storyId :=
  (KeepsRow.of_same (storyRow_linked _ _)).trans
    ((keepsRow_counted _ _ _).trans (KeepsRow.of_same rfl))

theorem keepsRow_promotePrimaryBacked (store : Store) (storyId other : Uuid) :
    KeepsRow store (promotePrimaryBacked store other) storyId := by
  apply keepsRow_map (storyRow_promotePrimaryBacked ..)
  intro row
  split <;> exact ⟨Finset.Subset.refl _, Finset.Subset.refl _⟩

theorem keepsRow_insertItem (store : Store) (storyId : Uuid) (enriched : EnrichedItem) :
    KeepsRow store (insertItem store enriched) storyId := by
  apply KeepsRow.of_same
  rw [Store.storyRow, stories_insertItem, Store.storyRow]

/-- A touched Story covers the new member, if it has a row. -/
theorem covers_touched (source : String) (entities : Finset String)
    (present : (store.storyRow storyId).isSome) (lastSeen : Int) :
    Covers (touchStory store storyId lastSeen source entities) storyId source entities := by
  obtain ⟨row, found⟩ := Option.isSome_iff_exists.mp present
  rw [Covers]
  rw [storyRow_touchStory, found]
  refine ⟨_, rfl, ?_⟩
  simp

/-- An attempt takes nothing away from a Story row. -/
theorem keepsRow_leaves
    (leaves : Leaves py pg cfg draw surfaced enriched cut store result final) (storyId : Uuid) :
    KeepsRow store final storyId := by
  have assigned : KeepsRow store (assigned py pg cfg draw surfaced enriched store) storyId :=
    KeepsRow.of_same rfl
  have touched (joined : Uuid) :
      KeepsRow store (touched py pg cfg draw surfaced enriched joined store) storyId :=
    assigned.trans (keepsRow_touchStory ..)
  cases leaves with
  | unchanged early => exact KeepsRow.of_same rfl
  | assigned stored reached short => exact assigned
  | created stored opens reached result =>
    refine ⟨fun row found => ⟨row, ?_, Finset.Subset.refl _, Finset.Subset.refl _⟩⟩
    exact storyRow_createStory_some found
  | touched stored joins reached short => exact touched _
  | linked stored joins reached short =>
    exact (touched _).trans (KeepsRow.of_same (storyRow_linked _ _))
  | counted stored joins reached result heavy =>
    exact (touched _).trans (keepsRow_recount ..)

/-- An attempt that runs to its end covers its own item. -/
theorem covers_own (leaves : Leaves py pg cfg draw surfaced enriched cut store (some ()) final)
    (fresh : store.storyRow draw.uuid4 = none)
    (rooted : ∀ storyId, targetOf py pg cfg draw surfaced enriched store = some storyId →
      (store.storyRow storyId).isSome) :
    Covers final (storyOf py pg cfg draw surfaced enriched store) enriched.item.source
      (entityTexts py enriched.item.entities) := by
  cases leaves with
  | created stored opens reached =>
    rw [storyOf, opens, Option.getD_none]
    exact ⟨_, storyRow_createStory_fresh fresh, Finset.mem_singleton_self _, subset_rfl⟩
  | @counted stored storyId joins reached result heavy =>
    rw [storyOf, joins, Option.getD_some]
    have rows : ((assigned py pg cfg draw surfaced enriched store).storyRow storyId).isSome :=
      rooted storyId joins
    have joined := covers_touched enriched.item.source
      (entityTexts py enriched.item.entities) rows enriched.item.tsObserved.instant
    exact (keepsRow_recount ..).covers joined

end Frame

section Run

variable {d : Deployment} {system : System}

/-- An attempt that ends gives it to its own row. -/
def GivesOwn (holds : Store → ItemRow → Uuid → Prop) (d : Deployment) (system : System) :
    Event → Prop
  | .deliver seq attempt => ∀ (enriched : EnrichedItem) (final : Store),
      d.item seq = some enriched → (d.attempt attempt enriched system.store).1.isSome →
      Leaves d.py d.pg d.cfg attempt.draw attempt.surfaced enriched attempt.cut system.store
        (some ()) final →
      ∀ old ∈ system.store.items, old.key = enriched.item.key → ∀ row : ItemRow,
        row.item = old.item → holds final row
          (storyOf d.py d.pg d.cfg attempt.draw attempt.surfaced enriched system.store)
  | _ => True

/-- What lasts as long as a Story's row grows, and what an attempt gives its own row in the end,
holds of every clustered row whose message does not wait. -/
theorem step_holdsOrWaits {holds : Store → ItemRow → Uuid → Prop} {event : Event}
    (lasts : ∀ {store final : Store} {row : ItemRow} {storyId : Uuid},
      KeepsRow store final storyId → holds store row storyId → holds final row storyId)
    (before : HoldsOrWaits holds d system) (own : GivesOwn holds d system event) :
    HoldsOrWaits holds d (step d system event) := by
  cases event with
  | write enriched =>
    intro row member storyId assigned
    have present : row ∈ (insertItem system.store enriched).members storyId :=
      mem_members.mpr ⟨member, assigned⟩
    rw [members_insertItem] at present
    exact (before row (mem_members.mp present).1 storyId assigned).imp_right
      (lasts (keepsRow_insertItem ..))
  | promote target =>
    intro row member storyId assigned
    exact (before row member storyId assigned).imp_right
      (lasts (keepsRow_promotePrimaryBacked ..))
  | deliver seq attempt =>
    cases handled : d.item seq with
    | none =>
      rw [step_dropped handled]
      intro row member storyId assigned
      rcases before row member storyId assigned with waits | there
      · exact .inl (waits.erase (fun enriched item => nomatch handled.symm.trans item) _ _)
      · exact .inr there
    | some enriched =>
      obtain ⟨result, final, ran, leaves, next⟩ := step_handled system attempt handled
      rw [next]
      intro row member storyId assigned
      rw [System.settle_store] at member ⊢
      by_cases same : row.key = enriched.item.key
      · cases result with
        | none => exact .inl (same ▸ waits_failed handled final)
        | some ended =>
          right
          obtain ⟨old, present, item, joined⟩ := own_row_ended leaves member same
          have key : old.key = enriched.item.key := by
            rw [← same, ItemRow.key, ItemRow.key, item]
          rw [← Option.some.inj (joined.symm.trans assigned)]
          exact own enriched final handled (by rw [ran]; rfl) leaves old present key row item
      · -- a row of another item is as it was, and its message waits if it did
        have old := mem_items_before leaves member same
        rcases before row old storyId assigned with waits | there
        · exact .inl (waits.settle handled same result final)
        · exact .inr (lasts (keepsRow_leaves leaves storyId) there)

theorem step_coveredOrWaiting {event : Event} (holds : CoveredOrWaiting d system)
    (fresh : FreshDraw system event) (grounded : Grounded d system event) :
    CoveredOrWaiting d (step d system event) := by
  refine step_holdsOrWaits (fun keeps covers => keeps.covers covers) holds ?_
  cases event with
  | write enriched => trivial
  | promote storyId => trivial
  | deliver seq attempt =>
    intro enriched final handled ended leaves old present key row item
    obtain ⟨rooted, agrees⟩ := grounded enriched handled ended
    obtain ⟨source, entities⟩ := agrees old present key
    obtain ⟨story, found, named, held⟩ := covers_own leaves fresh.1 rooted
    rw [item, source]
    exact ⟨story, found, named, entities.trans held⟩

/-- Whenever no message waits, every clustered item is covered by its Story's row,
if no attempt that ran to its end joined a Story without one. -/
theorem story_rows_covered (d : Deployment) (events : List Event)
    (fresh : Along (step d) FreshDraw {} events)
    (grounded : Along (step d) (Grounded d) {} events) :
    Always (step d) (fun system => system.waiting = ∅ → RowsCovered d.py system.store) {}
      events := by
  have covered := (fresh.and grounded).always (CoveredOrWaiting d)
    (fun row none => absurd none List.not_mem_nil)
    fun _ _ holds meets => step_coveredOrWaiting holds meets.1 meets.2
  intro before initial settled row member storyId assigned
  rcases covered before initial row member storyId assigned with ⟨seq, waiting, _⟩ | covers
  · rw [settled] at waiting
    cases waiting
  · exact covers

end Run

/-- Both are handled, the second joins the Story of the first. -/
def undisturbed : List Event :=
  [.write (report 1 "ann" "mastodon" .social), .write (report 2 "bob" "bluesky" .social),
    .deliver 0 { draw := ⟨0, 7⟩ }, .deliver 1 { draw := ⟨0, 8⟩, surfaced := [(1, 1)] }]

theorem story_rows_covered_undisturbed :
    Always (step twoReports) (fun system => system.waiting = ∅ →
      RowsCovered twoReports.py system.store) {} undisturbed :=
  story_rows_covered twoReports undisturbed (by decide +kernel) (by decide +kernel)

/-- The first report is assigned and then fails; the second adopts its Story
before the row is created, and so does the first when it comes back. -/
def adopted : List Event :=
  [.write (report 1 "ann" "mastodon" .social), .write (report 2 "bob" "bluesky" .social),
    .deliver 0 { draw := ⟨0, 7⟩, cut := some 2 },
    .deliver 1 { draw := ⟨0, 8⟩, surfaced := [(1, 1)] },
    .deliver 0 { draw := ⟨0, 9⟩, surfaced := [(2, 2)] }]

theorem story_row_missing :
    Along (step twoReports) FreshDraw {} adopted ∧
      ¬ Always (step twoReports) (fun system => system.waiting = ∅ →
        RowsCovered twoReports.py system.store) {} adopted := by
  refine ⟨by decide +kernel, fun covered => ?_⟩
  have settled : (run (step twoReports) {} adopted).waiting = ∅ := by decide +kernel
  have clustered : ∃ row ∈ (run (step twoReports) {} adopted).store.items,
      row.storyId = some 7 := by decide +kernel
  have missing : (run (step twoReports) {} adopted).store.storyRow 7 = none := by decide +kernel
  obtain ⟨row, member, assigned⟩ := clustered
  obtain ⟨story, found, _⟩ := covered adopted (List.prefix_refl _) settled row member 7 assigned
  cases missing.symm.trans found

end NewsAggregator.Cluster
