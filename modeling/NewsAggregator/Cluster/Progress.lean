import NewsAggregator.Cluster.StoryRows
import NewsAggregator.Cluster.Visit

/-! No message is stuck between the stream and the stories: whatever attempts failed
before, the next one that nothing stops but a missing partition puts the item into a Story
and acks it. -/

namespace NewsAggregator.Cluster

open Bus Trust Foundation

/-- The row of the item is there and assigned to a Story. -/
def Clustered (store : Store) (key : Uuid × Int) : Prop :=
  ∃ row ∈ store.items, row.key = key ∧ row.storyId.isSome

/-- The row of the item is there and in a Story that has a row. -/
def Filed (store : Store) (key : Uuid × Int) : Prop :=
  ∃ row ∈ store.items, row.key = key ∧
    ∃ storyId, row.storyId = some storyId ∧ (store.storyRow storyId).isSome

/-- Whatever was acked is assigned to a Story. -/
def AckedClustered (d : Deployment) (system : System) : Prop :=
  ∀ seq ∈ system.acked, ∀ enriched ∈ d.item seq, Clustered system.store enriched.item.key

/-- Whatever was acked is in a Story with a row, unless a message for it waits. -/
def AckedFiled (d : Deployment) (system : System) : Prop :=
  ∀ seq ∈ system.acked, ∀ enriched ∈ d.item seq,
    Waits d system enriched.item.key ∨ Filed system.store enriched.item.key

/-- An attempt that runs to its end joins only a Story with a row. -/
def Rooted (d : Deployment) (system : System) : Event → Prop
  | .deliver seq attempt => ∀ enriched ∈ d.item seq,
      (d.attempt attempt enriched system.store).1.isSome →
      ∀ storyId ∈ targetOf d.py d.pg d.cfg attempt.draw attempt.surfaced enriched system.store,
        (system.store.storyRow storyId).isSome
  | _ => True

instance (d : Deployment) (system : System) : DecidablePred (Rooted d system)
  | .write _ => isTrue trivial
  | .promote _ => isTrue trivial
  | .deliver seq attempt => inferInstanceAs (Decidable (∀ enriched ∈ d.item seq,
      (d.attempt attempt enriched system.store).1.isSome → _))

/-- The Story of every clustered row has a row, unless the row's message waits. -/
def RootedOrWaiting (d : Deployment) (system : System) : Prop :=
  HoldsOrWaits (fun store _ storyId => (store.storyRow storyId).isSome) d system

section Attempts

variable {py : Python} {pg : Postgres} {cfg : Config} {draw : Draw}
  {surfaced : List (Uuid × Int)} {enriched : EnrichedItem} {cut : Option ℕ} {store final : Store}
  {result : Option Unit} {key : Uuid × Int}

theorem stored_insertItem (stored : Stored store key) (enriched : EnrichedItem) :
    Stored (insertItem store enriched) key := by
  obtain ⟨row, member, same⟩ := stored
  refine ⟨row, ?_, same⟩
  rw [insertItem]
  split
  · exact member
  · exact List.mem_append_left _ member

theorem Clustered.insertItem (clustered : Clustered store key) (enriched : EnrichedItem) :
    Clustered (insertItem store enriched) key := by
  obtain ⟨row, member, same, joined⟩ := clustered
  refine ⟨row, ?_, same, joined⟩
  rw [Cluster.insertItem]
  split
  · exact member
  · exact List.mem_append_left _ member

/-- An assignment takes no item out of the stories, and puts its own into one. -/
theorem clustered_assigned
    (clustered : Clustered store key ∨ Stored store key ∧ key = enriched.item.key) :
    Clustered (assigned py pg cfg draw surfaced enriched store) key := by
  have own {row : ItemRow} (member : row ∈ store.items) (same : row.key = enriched.item.key) :
      Clustered (assigned py pg cfg draw surfaced enriched store) row.key :=
    ⟨_, List.mem_map_of_mem member, by rw [if_pos same]; rfl, by rw [if_pos same]; rfl⟩
  rcases clustered with ⟨row, member, rfl, joined⟩ | ⟨⟨row, member, rfl⟩, same⟩
  · by_cases same : row.key = enriched.item.key
    · exact own member same
    · exact ⟨row, stays_assigned member same, rfl, joined⟩
  · exact own member same

theorem Clustered.of_items (clustered : Clustered store key) (same : final.items = store.items) :
    Clustered final key := by
  rwa [Clustered, same]

theorem clustered_leaves (leaves : Leaves py pg cfg draw surfaced enriched cut store result final)
    (clustered : Clustered store key) : Clustered final key := by
  rcases leaves_items leaves with ⟨rfl, _⟩ | ⟨_, _, items⟩
  · exact clustered
  · exact (clustered_assigned (.inl clustered)).of_items items

theorem clustered_ended
    (leaves : Leaves py pg cfg draw surfaced enriched cut store (some ()) final) :
    Clustered final enriched.item.key := by
  rcases leaves_items leaves with ⟨_, none, _⟩ | ⟨stored, _, items⟩
  · cases none
  · exact (clustered_assigned (.inr ⟨stored, rfl⟩)).of_items items

theorem stored_leaves (leaves : Leaves py pg cfg draw surfaced enriched cut store result final)
    (stored : Stored store key) : Stored final key := by
  rcases leaves_items leaves with ⟨rfl, _⟩ | ⟨_, _, items⟩
  · exact stored
  · obtain ⟨row, member, rfl⟩ := stored
    rw [Stored, items]
    refine ⟨_, List.mem_map_of_mem member, ?_⟩
    split <;> rfl

theorem isSome_storyRow_createStory (store : Store) (storyId : Uuid) (firstSeen : Int)
    (entitySet : Finset String) (source : String) (centroid : Embedding) :
    ((createStory store storyId firstSeen entitySet source centroid).storyRow storyId).isSome := by
  cases found : store.storyRow storyId with
  | none => rw [storyRow_createStory_fresh found]; rfl
  | some row => rw [storyRow_createStory_some found]; rfl

/-- The Story of an item whose attempt ended has a row, if the Story it joined has one. -/
theorem storyRow_ended
    (leaves : Leaves py pg cfg draw surfaced enriched cut store (some ()) final)
    (rooted : ∀ storyId ∈ targetOf py pg cfg draw surfaced enriched store,
      (store.storyRow storyId).isSome) :
    (final.storyRow (storyOf py pg cfg draw surfaced enriched store)).isSome := by
  cases opens : targetOf py pg cfg draw surfaced enriched store with
  | some storyId =>
    rw [storyOf_joins opens]
    exact (keepsRow_leaves leaves storyId).isSome (rooted storyId opens)
  | none =>
    rw [storyOf_opens opens]
    cases leaves with
    | created stored opens reached => exact isSome_storyRow_createStory ..
    | counted stored joins reached result heavy => cases opens.symm.trans joins

end Attempts

section Runs

variable {d : Deployment} {system : System}

theorem step_ackedClustered (holds : AckedClustered d system) (event : Event) :
    AckedClustered d (step d system event) := by
  cases event with
  | write enriched =>
    exact fun seq acked item handled => (holds seq acked item handled).insertItem enriched
  | promote storyId => exact fun seq acked item handled => holds seq acked item handled
  | deliver seq attempt =>
    cases handled : d.item seq with
    | none =>
      rw [step_dropped handled]
      exact holds
    | some enriched =>
      obtain ⟨result, final, _, leaves, next⟩ := step_handled system attempt handled
      rw [next]
      intro other acked item sent
      rw [System.settle_store]
      have earlier (member : other ∈ system.acked) : Clustered final item.item.key :=
        clustered_leaves leaves (holds other member item sent)
      cases result with
      | none => exact earlier acked
      | some ended =>
        rcases Finset.mem_insert.mp acked with rfl | old
        · rw [Option.mem_def, handled] at sent
          obtain rfl := Option.some.inj sent
          exact clustered_ended leaves
        · exact earlier old

/-- The row of a message stays. -/
theorem step_stored {key : Uuid × Int} (stored : Stored system.store key) (event : Event) :
    Stored (step d system event).store key := by
  cases event with
  | write enriched => exact stored_insertItem stored enriched
  | promote storyId => exact stored
  | deliver seq attempt =>
    cases handled : d.item seq with
    | none =>
      rw [step_dropped handled]
      exact stored
    | some enriched =>
      obtain ⟨result, final, _, leaves, next⟩ := step_handled system attempt handled
      rw [next]
      exact stored_leaves leaves stored

theorem step_rootedOrWaiting {event : Event} (holds : RootedOrWaiting d system)
    (rooted : Rooted d system event) : RootedOrWaiting d (step d system event) := by
  refine step_holdsOrWaits (fun keeps present => keeps.isSome present) holds ?_
  cases event with
  | write enriched => trivial
  | promote storyId => trivial
  | deliver seq attempt =>
    intro enriched final handled ended leaves old present key row item
    exact storyRow_ended leaves (rooted enriched handled ended)

/-- What is assigned is filed, where the Stories have their rows. -/
theorem RootedOrWaiting.filed (holds : RootedOrWaiting d system) {key : Uuid × Int}
    (clustered : Clustered system.store key) : Waits d system key ∨ Filed system.store key := by
  obtain ⟨row, member, rfl, joined⟩ := clustered
  obtain ⟨storyId, assigned⟩ := Option.isSome_iff_exists.mp joined
  exact (holds row member storyId assigned).imp_right fun there =>
    ⟨row, member, rfl, storyId, assigned, there⟩

theorem always_ackedClustered (d : Deployment) (events : List Event) :
    Always (step d) (AckedClustered d) {} events := by
  have along : Along (step d) (fun _ _ => True) {} events := along_of_forall fun _ _ => trivial
  exact along.always (AckedClustered d) (fun _ none => absurd none (Finset.notMem_empty _))
    fun _ event holds _ => step_ackedClustered holds event

theorem always_ackedFiled {events : List Event} (rooted : Along (step d) (Rooted d) {} events) :
    Always (step d) (AckedFiled d) {} events := by
  intro before initial seq acked enriched sent
  have holds := (rooted.shorten initial).invariant (RootedOrWaiting d)
    (fun row none => absurd none List.not_mem_nil) fun _ _ holds meets =>
      step_rootedOrWaiting holds meets
  exact holds.filed (always_ackedClustered d events before initial seq acked enriched sent)

theorem Ready.later {seq : ℕ} (ready : Ready d system seq) (event : Event) :
    Ready d (step d system event) seq :=
  fun enriched sent => (ready enriched sent).imp_left (step_stored · event)

/-- Visits that find their partitions settle their messages, and no other one waits that did
not before. -/
theorem visits_settle (turns : List (ℕ × Visit)) (ready : ∀ turn ∈ turns, Ready d system turn.1)
    (placed : Along (visitStep d) (Placed d) system turns) :
    (run (visitStep d) system turns).waiting ⊆ system.waiting ∧
      system.acked ⊆ (run (visitStep d) system turns).acked ∧
      ∀ turn ∈ turns, turn.1 ∉ (run (visitStep d) system turns).waiting ∧
        ((d.item turn.1).isSome → turn.1 ∈ (run (visitStep d) system turns).acked) := by
  induction turns generalizing system with
  | nil => exact ⟨Finset.Subset.refl _, Finset.Subset.refl _, nofun⟩
  | cons turn rest ih =>
    obtain ⟨here, later⟩ := placed
    have readyLater : ∀ other ∈ rest, Ready d (visitStep d system turn) other.1 :=
      fun other member => (ready other (List.mem_cons_of_mem _ member)).later _
    rcases visitStep_settles (ready turn List.mem_cons_self) with
      ⟨_, waiting, kept, own⟩ | ⟨unplaced, _⟩
    · obtain ⟨fewer, more, settled⟩ := ih readyLater later
      rw [waiting] at fewer
      refine ⟨fewer.trans (Finset.erase_subset _ _), kept.trans more, fun other member => ?_⟩
      rcases List.mem_cons.mp member with rfl | member
      · exact ⟨fun waits => Finset.notMem_erase _ _ (fewer waits), fun sent => more (own sent)⟩
      · exact settled other member
    · exact absurd here unplaced

/-- After any run, with whatever attempts failed in it: what was acked is assigned to a Story,
and that has a row unless some attempt joined a Story without one or a message for the item
waits. Once the writer has stored its item, a visit settles a message exactly if it finds its
partitions; visits that do settle all their messages, in any order and from whatever the failed
attempts left behind. -/
theorem stream_clusters (d : Deployment) (events : List Event) :
    let system := run (step d) {} events
    Always (step d) (AckedClustered d) {} events ∧
    (Along (step d) (Rooted d) {} events → Always (step d) (AckedFiled d) {} events) ∧
    (∀ turn : ℕ × Visit, Ready d system turn.1 →
      (turn.1 ∉ (visitStep d system turn).waiting ↔ Placed d system turn)) ∧
    ∀ turns : List (ℕ × Visit), (∀ turn ∈ turns, Ready d system turn.1) →
      Along (visitStep d) (Placed d) system turns →
      let visited := events ++ (d.attempts system turns).map fun turn => .deliver turn.1 turn.2
      let final := run (step d) {} visited
      ∀ turn ∈ turns, turn.1 ∉ final.waiting ∧ ∀ enriched ∈ d.item turn.1, turn.1 ∈ final.acked ∧
        Clustered final.store enriched.item.key ∧
          (Along (step d) (Rooted d) {} visited →
            Waits d final enriched.item.key ∨ Filed final.store enriched.item.key) := by
  intro system
  refine ⟨always_ackedClustered d events, always_ackedFiled, fun turn ready => ?_,
    fun turns ready placed => ?_⟩
  · rcases visitStep_settles ready with ⟨placed, waiting, _⟩ | ⟨unplaced, waits⟩
    · rw [waiting]
      exact iff_of_true (Finset.notMem_erase _ _) placed
    · exact iff_of_false (not_not_intro waits) unplaced
  · have settled := (visits_settle turns ready placed).2.2
    intro visited final turn member
    have same : run (visitStep d) system turns = final := by
      rw [← run_attempts, ← run_append]
    rw [same] at settled
    obtain ⟨rested, acked⟩ := settled turn member
    refine ⟨rested, fun enriched sent => ?_⟩
    have done : turn.1 ∈ final.acked := acked (Option.isSome_of_mem sent)
    refine ⟨done, always_ackedClustered d visited _ (List.prefix_refl _) turn.1 done enriched sent,
      fun rooted => ?_⟩
    exact always_ackedFiled rooted _ (List.prefix_refl _) turn.1 done enriched sent

end Runs

/-- The first report fails before its Story has a row. -/
def failedFirst : List Event :=
  [.write (report 1 "ann" "mastodon" .social), .deliver 0 { draw := ⟨0, 7⟩, cut := some 2 },
    .write (report 2 "bob" "bluesky" .social)]

/-- Both come once more, and the second joins the Story of the first. -/
def visits : List (ℕ × Visit) :=
  [(0, { draw := ⟨0, 8⟩ }), (1, { draw := ⟨0, 9⟩, surfaced := [(1, 1)] })]

def visited : List Event :=
  failedFirst ++ (twoReports.attempts (run (step twoReports) {} failedFirst) visits).map
    fun turn => .deliver turn.1 turn.2

theorem stream_clusters_retried :
    (run (step twoReports) {} failedFirst).waiting = {0} ∧
      ∀ turn ∈ visits, ∀ enriched ∈ twoReports.item turn.1,
        turn.1 ∈ (run (step twoReports) {} visited).acked ∧
          (Waits twoReports (run (step twoReports) {} visited) enriched.item.key ∨
            Filed (run (step twoReports) {} visited).store enriched.item.key) := by
  have rooted : Along (step twoReports) (Rooted twoReports) {} visited := by decide +kernel
  have settled := (stream_clusters twoReports failedFirst).2.2.2 visits (by decide +kernel)
    (by decide +kernel)
  refine ⟨by decide +kernel, fun turn member enriched sent => ?_⟩
  exact ⟨((settled turn member).2 enriched sent).1,
    ((settled turn member).2 enriched sent).2.2 rooted⟩

end NewsAggregator.Cluster
