import NewsAggregator.Cluster.Consumer
import NewsAggregator.Schema.Partitions

/-! Clustering next to the daily job: whether a Story lives as long as the items
that new items can still join it through. -/

namespace NewsAggregator.Cluster

open Trust Foundation

/-- The system and the time of its last event. -/
structure Aging where
  system : System := {}
  now : Int := 0

/-- The services work on, or the daily job runs. -/
inductive AgingEvent where
  | cluster (now : Int) (event : Event)
  | daily (now : Int)

/-- `drop_old_partitions(5)`, on the three tables that clustering uses. -/
def dropOld (store : Store) (now : Int) : Store :=
  let kept (ts : Int) : Bool := utcDay now - 5 ≤ utcDay ts
  { store with
    items := store.items.filter fun row => kept row.item.tsObserved.instant
    stories := store.stories.filter fun row => kept row.firstSeen
    provenanceEdges := store.provenanceEdges.filter fun row => kept row.tsObserved }

def agingStep (d : Deployment) (state : Aging) : AgingEvent → Aging
  | .cluster now event => ⟨step d state.system event, now⟩
  | .daily now => ⟨{ state.system with store := dropOld state.system.store now }, now⟩

/-- The clock does not go back, items carry the time of their arrival, and no
attempt is cut off. -/
def Punctual (state : Aging) : AgingEvent → Prop
  | .cluster now (.write enriched) =>
    state.now ≤ now ∧ enriched.item.tsObserved.instant = now
  | .cluster now (.deliver _ attempt) =>
    state.now ≤ now ∧ attempt.draw.now = now ∧ attempt.cut = none
  | .cluster now (.promote _) => state.now ≤ now
  | .daily now => state.now ≤ now

instance (state : Aging) : DecidablePred (Punctual state)
  | .cluster _ (.write _) => inferInstanceAs (Decidable (_ ∧ _))
  | .cluster _ (.deliver _ _) => inferInstanceAs (Decidable (_ ∧ _))
  | .cluster _ (.promote _) => inferInstanceAs (Decidable (_ ≤ _))
  | .daily _ => inferInstanceAs (Decidable (_ ≤ _))

/-- Every item of the neighbour window refers to a stored Story. -/
def Housed (d : Deployment) (state : Aging) : Prop :=
  ∀ row ∈ state.system.store.items,
    state.now - d.cfg.windowDays * day ≤ row.item.tsObserved.instant →
    ∀ storyId, row.storyId = some storyId →
      ∃ story ∈ state.system.store.stories, story.id = storyId

/-- An item joins only a stored Story. -/
def JoinsStored (d : Deployment) (state : Aging) : AgingEvent → Prop
  | .cluster _ (.deliver seq attempt) => ∀ enriched ∈ d.item seq,
      ∀ storyId ∈ targetOf d.py d.pg d.cfg attempt.draw attempt.surfaced enriched
        state.system.store, ∃ story ∈ state.system.store.stories, story.id = storyId
  | _ => True

/-- The Story an item joins was first seen few enough days before the item to stay
until the item has left the window. -/
def JoinsRecent (d : Deployment) (state : Aging) : AgingEvent → Prop
  | .cluster _ (.deliver seq attempt) => ∀ enriched ∈ d.item seq,
      ∀ storyId ∈ targetOf d.py d.pg d.cfg attempt.draw attempt.surfaced enriched
        state.system.store, ∀ story ∈ state.system.store.stories, story.id = storyId →
          utcDay enriched.item.tsObserved.instant ≤
            utcDay story.firstSeen + max (5 - d.cfg.windowDays) 0
  | _ => True

instance (d : Deployment) (state : Aging) : DecidablePred (JoinsRecent d state)
  | .cluster _ (.deliver seq attempt) => inferInstanceAs (Decidable (∀ enriched ∈ d.item seq,
      ∀ storyId ∈ targetOf d.py d.pg d.cfg attempt.draw attempt.surfaced enriched
        state.system.store, ∀ story ∈ state.system.store.stories, story.id = storyId → _))
  | .cluster _ (.write _) => isTrue trivial
  | .cluster _ (.promote _) => isTrue trivial
  | .daily _ => isTrue trivial

/-- The id and the first day of each Story, which no service changes. -/
def storyDays (store : Store) : List (Uuid × Int) :=
  store.stories.map fun row => (row.id, row.firstSeen)

/-- The Story has a row that stays while an item of the given time is in the window. -/
def Lasts (d : Deployment) (store : Store) (storyId : Uuid) (ts : Int) : Prop :=
  ∃ firstSeen, (storyId, firstSeen) ∈ storyDays store ∧
    utcDay ts ≤ utcDay firstSeen + max (5 - d.cfg.windowDays) 0

/-- Every item of the window refers to a Story that lasts. -/
def Lasting (d : Deployment) (state : Aging) : Prop :=
  ∀ row ∈ state.system.store.items,
    state.now - d.cfg.windowDays * day ≤ row.item.tsObserved.instant →
    ∀ storyId, row.storyId = some storyId →
      Lasts d state.system.store storyId row.item.tsObserved.instant

section Days

variable {store : Store} {storyId : Uuid}

theorem mem_storyDays {firstSeen : Int} : (storyId, firstSeen) ∈ storyDays store ↔
    ∃ row ∈ store.stories, row.id = storyId ∧ row.firstSeen = firstSeen := by
  simp [storyDays]

theorem storyDays_updateStory {change : StoryRow → StoryRow}
    (id : ∀ row, (change row).id = row.id)
    (firstSeen : ∀ row, (change row).firstSeen = row.firstSeen) :
    storyDays (updateStory store storyId change) = storyDays store := by
  rw [storyDays, updateStory, List.map_map]
  apply List.map_congr_left
  intro row _
  simp only [Function.comp_apply]
  split
  · rw [id, firstSeen]
  · rfl

theorem storyDays_touchStory (lastSeen : Int) (source : String) (entitySet : Finset String) :
    storyDays (touchStory store storyId lastSeen source entitySet) = storyDays store := by
  rw [touchStory]
  split
  · rfl
  · exact storyDays_updateStory (fun _ => rfl) fun _ => rfl

theorem storyDays_createStory (store : Store) (storyId : Uuid) (firstSeen : Int)
    (entitySet : Finset String) (source : String)
    (centroid : Embedding) :
    storyDays store ⊆ storyDays (createStory store storyId firstSeen entitySet source centroid) ∧
      (storyId, firstSeen) ∈
        storyDays (createStory store storyId firstSeen entitySet source centroid) := by
  rw [createStory]
  split
  · rename_i present
    refine ⟨List.Subset.refl _, mem_storyDays.mpr ?_⟩
    simpa using present
  · simp [storyDays]

theorem storyDays_counted (store : Store) {py : Python} {cfg : Config} :
    storyDays (counted py cfg storyId store) = storyDays store := by
  rw [counted, updateTrust]
  exact storyDays_updateStory (fun _ => rfl) fun _ => rfl

/-- A row stays for the daily job of a day if its own item does. -/
theorem Lasts.dropOld {d : Deployment} {ts now : Int} (lasts : Lasts d store storyId ts)
    (recent : utcDay now - 5 ≤ utcDay ts) (window : now - d.cfg.windowDays * day ≤ ts) :
    Lasts d (dropOld store now) storyId ts := by
  obtain ⟨firstSeen, member, late⟩ := lasts
  obtain ⟨row, stored, id, first⟩ := mem_storyDays.mp member
  have near : utcDay now - d.cfg.windowDays ≤ utcDay ts := by
    have days : utcDay now * dayLength ≤ now := le_utcDay_iff.mp le_rfl
    refine le_utcDay_iff.mpr ?_
    unfold day at window
    unfold dayLength at days ⊢
    omega
  refine ⟨firstSeen, mem_storyDays.mpr ⟨row, List.mem_filter.mpr ⟨stored, ?_⟩, id, first⟩, late⟩
  rw [first]
  exact decide_eq_true (by omega)

end Days

section Run

variable {d : Deployment} {state : Aging}

theorem Lasts.mono {store final : Store} {storyId : Uuid} {ts : Int}
    (lasts : Lasts d store storyId ts) (kept : storyDays store ⊆ storyDays final) :
    Lasts d final storyId ts := by
  obtain ⟨firstSeen, member, late⟩ := lasts
  exact ⟨firstSeen, kept member, late⟩

/-- What an attempt that is not cut off does to the rows. -/
theorem attempt_rows {enriched : EnrichedItem} {draw : Draw} {surfaced : List (Uuid × Int)}
    {store final : Store} {result : Option Unit}
    (leaves : Leaves d.py d.pg d.cfg draw surfaced enriched none store result final) :
    final = store ∨
      final.items = (assigned d.py d.pg d.cfg draw surfaced enriched store).items ∧
        storyDays store ⊆ storyDays final ∧
        (targetOf d.py d.pg d.cfg draw surfaced enriched store = none →
          (draw.uuid4, enriched.item.tsObserved.instant) ∈ storyDays final) := by
  have whole (count : ℕ) : Program.Reached none count := fun _ impossible => nomatch impossible
  cases leaves with
  | unchanged early => exact .inl rfl
  | assigned stored reached short => exact absurd (whole 3) short
  | created stored opens reached =>
    obtain ⟨kept, added⟩ := storyDays_createStory
      (assigned d.py d.pg d.cfg draw surfaced enriched store) draw.uuid4
      enriched.item.tsObserved.instant (entityTexts d.py enriched.item.entities)
      enriched.item.source enriched.embedding
    exact .inr ⟨items_created, kept, fun _ => added⟩
  | touched stored joins reached short => exact absurd (whole 5) short
  | linked stored joins reached short => exact absurd (whole 8) short
  | @counted stored storyId joins reached result heavy =>
    have same : storyDays (counted d.py d.cfg storyId (linked d.py storyId enriched.item.id
        (touched d.py d.pg d.cfg draw surfaced enriched storyId store))) = storyDays store := by
      refine (storyDays_counted _).trans ?_
      exact storyDays_touchStory enriched.item.tsObserved.instant enriched.item.source
        (entityTexts d.py enriched.item.entities)
    refine .inr ⟨by simp, ?_, fun opens => nomatch opens.symm.trans joins⟩
    exact fun entry member => same.symm ▸ member

/-- A joined Story is that of a neighbour in the window, so it lasts. -/
theorem target_lasts {enriched : EnrichedItem} {draw : Draw} {surfaced : List (Uuid × Int)}
    (lasting : Lasting d state) (clock : state.now ≤ draw.now) {storyId : Uuid}
    (joins : targetOf d.py d.pg d.cfg draw surfaced enriched state.system.store = some storyId) :
    ∃ ts, Lasts d state.system.store storyId ts := by
  obtain ⟨neighbor, chosen, rfl⟩ := chooseStory_mem joins
  obtain ⟨row, surfaced, same⟩ := List.mem_filterMap.mp chosen
  obtain ⟨story, assigned, rfl⟩ := Option.map_eq_some_iff.mp same
  obtain ⟨member, near⟩ := mem_nearest surfaced
  have window : draw.now - d.cfg.windowDays * day ≤ row.item.tsObserved.instant := by
    simp only [Cluster.near, decide_eq_true_eq] at near
    exact near.2.1
  exact ⟨_, lasting row member (by omega) story assigned⟩

private theorem deliver_lasting {now : Int} {seq : ℕ} {attempt : Attempt}
    (lasting : Lasting d state) (punctual : Punctual state (.cluster now (.deliver seq attempt)))
    (recent : JoinsRecent d state (.cluster now (.deliver seq attempt))) :
    Lasting d (agingStep d state (.cluster now (.deliver seq attempt))) := by
  obtain ⟨clock, here, whole⟩ := punctual
  have others (row : ItemRow) (member : row ∈ state.system.store.items)
      (window : now - d.cfg.windowDays * day ≤ row.item.tsObserved.instant) (storyId : Uuid)
      (assigned : row.storyId = some storyId) :
      Lasts d state.system.store storyId row.item.tsObserved.instant :=
    lasting row member (by omega) storyId assigned
  cases handled : d.item seq with
  | none =>
    rw [agingStep, step_dropped handled]
    exact others
  | some enriched =>
    obtain ⟨result, final, _, leaves, next⟩ := step_handled state.system attempt handled
    rw [whole] at leaves
    rw [agingStep, next]
    intro row member window storyId assigned
    rw [System.settle_store] at member ⊢
    rcases attempt_rows leaves with rfl | ⟨items, kept, opened⟩
    · exact others row member window storyId assigned
    rw [items] at member
    obtain ⟨old, present, item, ⟨own, joined, _⟩ | ⟨_, rfl⟩⟩ := mem_assigned member
    · have time : row.item.tsObserved.instant = enriched.item.tsObserved.instant :=
        congrArg Prod.snd own
      have chosen := Option.some.inj (joined.symm.trans assigned)
      rw [time]
      cases target : targetOf d.py d.pg d.cfg attempt.draw attempt.surfaced enriched
          state.system.store with
      | none =>
        rw [storyOf, target, Option.getD_none] at chosen
        rw [← chosen]
        exact ⟨_, opened target, by omega⟩
      | some story =>
        rw [storyOf, target, Option.getD_some] at chosen
        obtain ⟨_, firstSeen, days, _⟩ := target_lasts lasting (here ▸ clock) target
        obtain ⟨first, stored, id, seen⟩ := mem_storyDays.mp days
        have late := recent enriched handled story target first stored id
        rw [← chosen]
        exact ⟨firstSeen, kept days, seen ▸ late⟩
    · exact (others row present window storyId assigned).mono kept

theorem lasting_step {event : AgingEvent} (lasting : Lasting d state)
    (punctual : Punctual state event) (recent : JoinsRecent d state event) :
    Lasting d (agingStep d state event) := by
  cases event with
  | daily now =>
    have clock : state.now ≤ now := punctual
    intro row member window storyId assigned
    obtain ⟨stored, kept⟩ := List.mem_filter.mp member
    have before := lasting row stored (by simp only [agingStep] at window; omega) storyId assigned
    exact before.dropOld (of_decide_eq_true kept) window
  | cluster now event =>
    cases event with
    | write enriched =>
      intro row member window storyId assigned
      have present : row ∈ (insertItem state.system.store enriched).members storyId :=
        mem_members.mpr ⟨member, assigned⟩
      rw [members_insertItem] at present
      have clock : state.now ≤ now := punctual.1
      have before := lasting row (mem_members.mp present).1
        (by simp only [agingStep] at window; omega) storyId assigned
      refine before.mono ?_
      simp [agingStep, step, storyDays]
    | promote target =>
      intro row member window storyId assigned
      have clock : state.now ≤ now := punctual
      have before := lasting row member (by simp only [agingStep] at window; omega) storyId assigned
      have same : storyDays (promotePrimaryBacked state.system.store target) =
          storyDays state.system.store := storyDays_updateStory (fun _ => rfl) fun _ => rfl
      exact before.mono fun entry member => same.symm ▸ member
    | deliver seq attempt => exact deliver_lasting lasting punctual recent

theorem Lasting.housed (lasting : Lasting d state) : Housed d state := by
  intro row member window storyId assigned
  obtain ⟨firstSeen, days, _⟩ := lasting row member window storyId assigned
  obtain ⟨story, stored, id, _⟩ := mem_storyDays.mp days
  exact ⟨story, stored, id⟩

theorem Lasting.joinsStored {event : AgingEvent} (lasting : Lasting d state)
    (punctual : Punctual state event) : JoinsStored d state event := by
  cases event with
  | daily now => trivial
  | cluster now event =>
    cases event with
    | write enriched => trivial
    | promote target => trivial
    | deliver seq attempt =>
      intro enriched _ storyId joins
      obtain ⟨clock, here, _⟩ := punctual
      obtain ⟨_, firstSeen, days, _⟩ := target_lasts lasting (here ▸ clock) joins
      obtain ⟨story, stored, id, _⟩ := mem_storyDays.mp days
      exact ⟨story, stored, id⟩

/-- While items join only Stories that are recent enough, every item of the window
refers to a stored Story, and no item joins one that was dropped. -/
theorem stories_outlast_window (d : Deployment) (events : List AgingEvent)
    (punctual : Along (agingStep d) Punctual {} events)
    (recent : Along (agingStep d) (JoinsRecent d) {} events) :
    Always (agingStep d) (Housed d) {} events ∧
      Along (agingStep d) (JoinsStored d) {} events := by
  have start : Lasting d {} := by simp [Lasting]
  have along := punctual.and recent
  have always := along.always (Lasting d) start fun _ _ lasting meets =>
    lasting_step lasting meets.1 meets.2
  refine ⟨fun before initial => (always before initial).housed, ?_⟩
  exact along.consequence (Lasting d) start
    (fun _ _ lasting meets => lasting_step lasting meets.1 meets.2)
    (fun _ _ lasting meets => lasting.joinsStored meets.1)

end Run

/-- A report about one place, on a day. -/
def reportOn (number : Int) (id : Uuid) : EnrichedItem :=
  let sample := report id "ann" "mastodon" .social
  { sample with item := { sample.item with tsObserved := ⟨number * day, 0⟩ } }

/-- A report every other day, and the daily job. -/
def everyOtherDay : Deployment :=
  streamOf [reportOn 0 1, reportOn 2 2, reportOn 4 3]

/-- Each report is handled when it arrives; from the second on it comes upon the
one before. -/
def chained (number : Int) (seq : ℕ) (id : Uuid) (surfaced : List (Uuid × Int)) :
    List AgingEvent :=
  [.cluster (number * day) (.write (reportOn number id)),
    .cluster (number * day) (.deliver seq { draw := ⟨number * day, id + 6⟩, surfaced }),
    .daily (number * day), .daily ((number + 1) * day)]

theorem twoChained_housed :
    Always (agingStep everyOtherDay) (Housed everyOtherDay) {}
      (chained 0 0 1 [] ++ chained 2 1 2 [(1, 0)]) :=
  (stories_outlast_window everyOtherDay _ (by decide +kernel) (by decide +kernel)).1

/-- The third report joins the Story of the first; two days later the Story is
dropped, and the report is still in the window. -/
theorem chained_outlives_story :
    Along (agingStep everyOtherDay) Punctual {}
        (chained 0 0 1 [] ++ chained 2 1 2 [(1, 0)] ++ chained 4 2 3 [(2, 2 * day)] ++
          [.daily (6 * day)]) ∧
      ¬ Always (agingStep everyOtherDay) (Housed everyOtherDay) {}
        (chained 0 0 1 [] ++ chained 2 1 2 [(1, 0)] ++ chained 4 2 3 [(2, 2 * day)] ++
          [.daily (6 * day)]) := by
  refine ⟨by decide +kernel, fun housed => ?_⟩
  have present : ∃ row ∈ (run (agingStep everyOtherDay) {} (chained 0 0 1 [] ++
      chained 2 1 2 [(1, 0)] ++ chained 4 2 3 [(2, 2 * day)] ++
        [.daily (6 * day)])).system.store.items,
      4 * day ≤ row.item.tsObserved.instant ∧ row.storyId = some 7 := by decide +kernel
  have dropped : (run (agingStep everyOtherDay) {} (chained 0 0 1 [] ++
      chained 2 1 2 [(1, 0)] ++ chained 4 2 3 [(2, 2 * day)] ++
        [.daily (6 * day)])).system.store.stories.map StoryRow.id = [] := by decide +kernel
  obtain ⟨row, member, time, assigned⟩ := present
  obtain ⟨story, stored, _⟩ := housed _ (List.prefix_refl _) row member time 7 assigned
  have none := List.map_eq_nil_iff.mp dropped
  rw [none] at stored
  cases stored

end NewsAggregator.Cluster
