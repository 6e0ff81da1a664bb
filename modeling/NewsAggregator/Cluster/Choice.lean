import NewsAggregator.Cluster.Handle
import NewsAggregator.Foundation.Limit

/-! Which Story an item joins, when the index answers exactly: the query hands over the
nearest rows, and the entities are only compared with those. -/

namespace NewsAggregator.Cluster

open Trust Foundation

section Spec

variable (py : Python) (pg : Postgres) (cfg : Config) (draw : Draw) (enriched : EnrichedItem)

/-- A clustered item in the time window, other than the new one. -/
def eligible (row : ItemRow) : Bool :=
  near (draw.now - cfg.windowDays * day) enriched.item.id row

/-- Similar enough, and about something the new item is about. -/
def Fits (row : ItemRow) : Prop :=
  (cfg.theta : WithBot ℚ) ≤ similarityTo pg enriched.embedding row ∧
    (entityTexts py enriched.item.entities ∩ entityTexts py row.item.entities).Nonempty

instance : DecidablePred (Fits py pg cfg enriched) :=
  fun _ => inferInstanceAs (Decidable (_ ∧ _))

/-- The index surfaces every row that the query asks for. -/
def Surfaces (surfaced : List (Uuid × Int)) (store : Store) : Prop :=
  ∀ row ∈ store.items, eligible cfg draw enriched row → row.key ∈ surfaced

/-- The item is in the Story, and no Story was opened. -/
structure Joined (store : Store) (storyId : Uuid) (final : Store) : Prop where
  assigned : ∀ row ∈ final.items, row.key = enriched.item.key → row.storyId = some storyId
  stories : final.stories.map StoryRow.id = store.stories.map StoryRow.id

/-- The item is in a Story opened for it. -/
structure Opened (final : Store) : Prop where
  assigned : ∀ row ∈ final.items, row.key = enriched.item.key → row.storyId = some draw.uuid4
  opened : draw.uuid4 ∈ final.stories.map StoryRow.id

end Spec

section Answer

variable {py : Python} {pg : Postgres} {cfg : Config} {draw : Draw} {enriched : EnrichedItem}
  {surfaced : List (Uuid × Int)} {store : Store}

/-- A key leads back to its row. -/
theorem find?_key (keys : (store.items.map ItemRow.key).Nodup) {row : ItemRow}
    (member : row ∈ store.items) :
    store.items.find? (fun other => other.key = row.key) = some row := by
  cases found : store.items.find? (fun other => other.key = row.key) with
  | none => exact absurd (by simp) (List.find?_eq_none.mp found row member)
  | some other =>
    have same : other.key = row.key := by simpa using List.find?_some found
    rw [List.inj_on_of_nodup_map keys (List.mem_of_find?_eq_some found) member same]

/-- The rows the query sorts. -/
def nearestOf (pg : Postgres) (cfg : Config) (draw : Draw) (enriched : EnrichedItem)
    (surfaced : List (Uuid × Int)) (store : Store) : List ItemRow :=
  nearest pg surfaced store enriched.embedding (draw.now - cfg.windowDays * day) enriched.item.id
    cfg.topk

theorem perm_surfaced (keys : (store.items.map ItemRow.key).Nodup)
    (surfaces : Surfaces cfg draw enriched surfaced store) :
    ((surfaced.dedup.filterMap fun key => store.items.find? fun row => row.key = key).filter
      (eligible cfg draw enriched)).Perm (store.items.filter (eligible cfg draw enriched)) := by
  have once : (surfaced.dedup.filterMap fun key =>
      store.items.find? fun row => row.key = key).Nodup := by
    refine (List.nodup_dedup surfaced).filterMap fun first second row isFirst isSecond => ?_
    have firstKey : row.key = first := by simpa using List.find?_some isFirst
    have secondKey : row.key = second := by simpa using List.find?_some isSecond
    exact firstKey.symm.trans secondKey
  rw [List.perm_ext_iff_of_nodup (once.filter _) (keys.of_map.filter _)]
  intro row
  simp only [List.mem_filter, List.mem_filterMap, List.mem_dedup, and_congr_left_iff]
  intro holds
  constructor
  · rintro ⟨key, _, found⟩
    exact List.mem_of_find?_eq_some found
  · intro member
    exact ⟨row.key, surfaces row member holds, find?_key keys member⟩

/-- An exact index answers with the nearest rows. -/
theorem top_nearestOf (keys : (store.items.map ItemRow.key).Nodup)
    (surfaces : Surfaces cfg draw enriched surfaced store) :
    Top (similarityTo pg enriched.embedding) cfg.topk
      (store.items.filter (eligible cfg draw enriched))
      (nearestOf pg cfg draw enriched surfaced store) :=
  (top_take (similarityTo pg enriched.embedding) cfg.topk _).of_perm (perm_surfaced keys surfaces)

theorem clustered_of_mem_nearestOf {row : ItemRow}
    (member : row ∈ nearestOf pg cfg draw enriched surfaced store) : row.storyId.isSome := by
  have holds := (mem_nearest member).2
  simp only [near, decide_eq_true_eq] at holds
  exact holds.1

theorem image_entityTexts (folds : ∀ text, py.casefold (py.casefold text) = py.casefold text)
    (entities : List Entity) :
    (entityTexts py entities).image py.casefold = entityTexts py entities := by
  have fixed : ∀ text ∈ entityTexts py entities, py.casefold text = text := by
    intro text member
    obtain ⟨entity, _, rfl⟩ := List.mem_map.mp (List.mem_toFinset.mp member)
    exact folds entity.text
  rw [Finset.image_congr fixed, Finset.image_id']

/-- The target is the Story of the first row that fits. -/
theorem targetOf_eq (folds : ∀ text, py.casefold (py.casefold text) = py.casefold text) :
    targetOf py pg cfg draw surfaced enriched store =
      ((nearestOf pg cfg draw enriched surfaced store).find? fun row =>
        row.storyId.isSome ∧ Fits py pg cfg enriched row).bind ItemRow.storyId := by
  unfold targetOf chooseStory
  dsimp only
  rw [image_entityTexts folds]
  split
  · rename_i empty
    have none : (nearestOf pg cfg draw enriched surfaced store).find? (fun row =>
        row.storyId.isSome ∧ Fits py pg cfg enriched row) = none := by
      simp [Fits, empty]
    rw [none]
    rfl
  · rw [neighbors, List.find?_filterMap]
    have accepts : (fun row : ItemRow => (row.storyId.map fun storyId => (⟨storyId,
        similarityTo pg enriched.embedding row, entityTexts py row.item.entities⟩ :
          Neighbor)).any fun n => decide ((cfg.theta : WithBot ℚ) ≤ n.similarity ∧
            (entityTexts py enriched.item.entities ∩ n.entityTexts).Nonempty)) =
        fun row => decide (row.storyId.isSome ∧ Fits py pg cfg enriched row) := by
      funext row
      cases row.storyId with
      | none => simp
      | some storyId => simp [Fits]
    rw [accepts, Option.map_bind]
    refine congrArg (Option.bind _) (funext fun row => ?_)
    simp [Function.comp_def]

theorem targetOf_eq_none (folds : ∀ text, py.casefold (py.casefold text) = py.casefold text) :
    targetOf py pg cfg draw surfaced enriched store = none ↔
      ¬ ∃ row ∈ nearestOf pg cfg draw enriched surfaced store, Fits py pg cfg enriched row := by
  rw [targetOf_eq folds, Option.bind_eq_none_iff]
  constructor
  · rintro none ⟨row, member, fits⟩
    cases found : (nearestOf pg cfg draw enriched surfaced store).find? fun row =>
        row.storyId.isSome ∧ Fits py pg cfg enriched row with
    | none =>
      have rejected := List.find?_eq_none.mp found row member
      exact rejected (decide_eq_true ⟨clustered_of_mem_nearestOf member, fits⟩)
    | some other =>
      have clustered := clustered_of_mem_nearestOf (List.mem_of_find?_eq_some found)
      rw [none other found] at clustered
      cases clustered
  · intro none row found
    have accepted := List.find?_some found
    rw [decide_eq_true_eq] at accepted
    exact absurd ⟨row, List.mem_of_find?_eq_some found, accepted.2⟩ none

/-- A chosen Story is that of a row that fits best. -/
theorem targetOf_eq_some (folds : ∀ text, py.casefold (py.casefold text) = py.casefold text)
    {rows : List ItemRow}
    (top : Top (similarityTo pg enriched.embedding) cfg.topk rows
      (nearestOf pg cfg draw enriched surfaced store)) {storyId : Uuid}
    (chosen : targetOf py pg cfg draw surfaced enriched store = some storyId) :
    ∃ row ∈ nearestOf pg cfg draw enriched surfaced store, Fits py pg cfg enriched row ∧
      row.storyId = some storyId ∧
      ∀ other ∈ nearestOf pg cfg draw enriched surfaced store, Fits py pg cfg enriched other →
        similarityTo pg enriched.embedding other ≤ similarityTo pg enriched.embedding row := by
  rw [targetOf_eq folds, Option.bind_eq_some_iff] at chosen
  obtain ⟨row, found, story⟩ := chosen
  obtain ⟨member, accepted, best⟩ := top.find?_best found
  refine ⟨row, member, (of_decide_eq_true accepted).2, story, fun other present fits => ?_⟩
  exact best other present (decide_eq_true ⟨clustered_of_mem_nearestOf present, fits⟩)

end Answer

section Outcome

variable {py : Python} {pg : Postgres} {cfg : Config} {draw : Draw} {enriched : EnrichedItem}
  {surfaced : List (Uuid × Int)} {store final : Store} {result : Option Unit}

/-- An attempt that is not cut off puts a stored item into the Story it chose. -/
theorem assigned_of_leaves (stored : Stored store enriched.item.key)
    (leaves : Leaves py pg cfg draw surfaced enriched none store result final) {row : ItemRow}
    (member : row ∈ final.items) (own : row.key = enriched.item.key) :
    row.storyId = some (storyOf py pg cfg draw surfaced enriched store) := by
  have items := leaves_linked leaves stored fun _ none => nomatch none
  rw [items] at member
  obtain ⟨_, _, _, joined⟩ := own_row_assigned member own
  exact joined

theorem joined_of_leaves (stored : Stored store enriched.item.key) {storyId : Uuid}
    (chosen : targetOf py pg cfg draw surfaced enriched store = some storyId)
    (leaves : Leaves py pg cfg draw surfaced enriched none store result final) :
    Joined enriched store storyId final := by
  refine ⟨fun row member own => ?_, ?_⟩
  · rw [assigned_of_leaves stored leaves member own, storyOf_joins chosen]
  · rcases leaves_stories leaves with same | ⟨_, opens, _⟩
    · exact same
    · cases chosen.symm.trans opens

theorem opened_of_leaves (stored : Stored store enriched.item.key)
    (chosen : targetOf py pg cfg draw surfaced enriched store = none)
    (leaves : Leaves py pg cfg draw surfaced enriched none store result final) :
    Opened draw enriched final := by
  have whole : ∀ count, Program.Reached none count := fun _ _ none => nomatch none
  refine ⟨fun row member own => ?_, ?_⟩
  · rw [assigned_of_leaves stored leaves member own, storyOf_opens chosen]
  · cases leaves with
    | unchanged early => exact absurd (whole 2) (early stored)
    | assigned _ _ short => exact absurd (whole 3) short
    | created => exact mem_ids_created.mpr (.inr rfl)
    | touched _ joins => cases chosen.symm.trans joins
    | linked _ joins => cases chosen.symm.trans joins
    | counted _ joins => cases chosen.symm.trans joins

end Outcome

/-- With an exact index: a stored item joins the Story of a most similar one of the rows that
fit among the nearest, as many as the limit lets through; where none of them fits it opens
a Story. An item that is not stored yet changes nothing. -/
theorem choice_iff (py : Python) (pg : Postgres) (cfg : Config) (draw : Draw)
    (surfaced : List (Uuid × Int)) (enriched : EnrichedItem) (store : Store)
    (folds : ∀ text, py.casefold (py.casefold text) = py.casefold text)
    (keys : (store.items.map ItemRow.key).Nodup)
    (surfaces : Surfaces cfg draw enriched surfaced store) :
    ∃ answer, Top (similarityTo pg enriched.embedding) cfg.topk
        (store.items.filter (eligible cfg draw enriched)) answer ∧
      let final := (Program.execute (exec py pg surfaced) none (handle py cfg draw enriched)
        store).2
      (¬ Stored store enriched.item.key → final = store) ∧
      (Stored store enriched.item.key →
        ((∃ row ∈ answer, Fits py pg cfg enriched row) →
          ∃ row ∈ answer, Fits py pg cfg enriched row ∧
            (∀ other ∈ answer, Fits py pg cfg enriched other →
              similarityTo pg enriched.embedding other ≤
                similarityTo pg enriched.embedding row) ∧
            ∃ storyId, row.storyId = some storyId ∧ Joined enriched store storyId final) ∧
        ((¬ ∃ row ∈ answer, Fits py pg cfg enriched row) → Opened draw enriched final)) := by
  have top : Top (similarityTo pg enriched.embedding) cfg.topk
      (store.items.filter (eligible cfg draw enriched))
      (nearestOf pg cfg draw enriched surfaced store) := top_nearestOf keys surfaces
  have leaves := handle_leaves (Program.execute_yields (exec py pg surfaced) none
    (handle py cfg draw enriched) store)
  refine ⟨nearestOf pg cfg draw enriched surfaced store, top, ?_, fun stored => ⟨?_, ?_⟩⟩
  · intro unstored
    rcases leaves_items leaves with ⟨same, _⟩ | ⟨stored, _⟩
    · exact same
    · exact absurd stored unstored
  · intro some_fits
    cases chosen : targetOf py pg cfg draw surfaced enriched store with
    | none => exact absurd some_fits ((targetOf_eq_none folds).mp chosen)
    | some storyId =>
      obtain ⟨row, member, fits, story, best⟩ := targetOf_eq_some folds top chosen
      exact ⟨row, member, fits, best, storyId, story, joined_of_leaves stored chosen leaves⟩
  · intro none_fits
    exact opened_of_leaves stored ((targetOf_eq_none folds).mpr none_fits) leaves

/-! Ten nearer items about another place, and one about the same. -/

/-- The direction of the new item, and one at a small angle to it. -/
def ahead : Embedding := fun i => if i.val = 0 then 1 else 0

def aside : Embedding := fun i => if i.val = 0 then 24 else if i.val = 1 then 7 else 0

/-- The similarity of these two is `24 / 25`. -/
def twoDirections : Postgres where
  lower := Python.plain.lower
  similarity a b := if a ⟨0, by decide⟩ = b ⟨0, by decide⟩ then (1 : ℚ) else (24 / 25 : ℚ)

/-- A report from a place. -/
def reportFrom (id : Uuid) (place : String) (placeCap : place.length ≤ 256) : Item where
  id := id
  source := "mastodon"
  sourceClass := .social
  tsObserved := ⟨0, 0⟩
  text := "!"
  entities := [{ text := place, type := .place, textCap := placeCap }]

theorem kyivShort : "Kyiv".length ≤ 256 := by decide

def fromKyiv : EnrichedItem where
  item := reportFrom 1 "Kyiv" kyivShort
  embedding := ahead

def clusteredRow (item : Item) (embedding : Embedding) (storyId : Uuid) : ItemRow where
  item := item
  embedding := some embedding
  storyId := some storyId

/-- The stored item, and a clustered one from the same place. -/
def calm : Store where
  items := [{ item := fromKyiv.item, embedding := some ahead },
    clusteredRow (reportFrom 2 "Kyiv" kyivShort) aside 7]

def busy : Store where
  items := calm.items ++ (List.range 10).map fun i =>
    clusteredRow (reportFrom (10 + i) "Lyon" (by decide)) ahead 5

def atOnce : Draw := ⟨0, 9⟩

theorem busy_hides :
    Surfaces {} atOnce fromKyiv (busy.items.map ItemRow.key) busy ∧
    (∃ row ∈ busy.items, eligible {} atOnce fromKyiv row ∧
      Fits Python.plain twoDirections {} fromKyiv row) ∧
    ∀ storyId, ¬ Joined fromKyiv busy storyId
      (Program.execute (exec Python.plain twoDirections (busy.items.map ItemRow.key)) none
        (handle Python.plain {} atOnce fromKyiv) busy).2 := by
  refine ⟨fun row member _ => List.mem_map_of_mem member, ?_, ?_⟩
  · refine ⟨clusteredRow (reportFrom 2 "Kyiv" kyivShort) aside 7, ?_, ?_, ?_⟩
    · exact List.mem_append_left _ (List.mem_cons_of_mem _ List.mem_cons_self)
    · decide +kernel
    · decide +kernel
  · intro storyId joined
    have stored : Stored busy fromKyiv.item.key := by decide +kernel
    have chosen : targetOf Python.plain twoDirections {} atOnce (busy.items.map ItemRow.key)
        fromKyiv busy = none := by decide +kernel
    have opened := opened_of_leaves stored chosen
      (handle_leaves (Program.execute_yields _ none _ busy))
    have ids := joined.stories ▸ opened.opened
    exact absurd ids (by decide)

/-- With the nearer items gone, the new one joins the Story of the other. -/
theorem choice_iff_calm : Joined fromKyiv calm 7
    (Program.execute (exec Python.plain twoDirections (calm.items.map ItemRow.key)) none
      (handle Python.plain {} atOnce fromKyiv) calm).2 := by
  obtain ⟨answer, top, _, stored⟩ := choice_iff Python.plain twoDirections {} atOnce
    (calm.items.map ItemRow.key) fromKyiv calm Python.plain_casefold (by decide +kernel)
    fun row member _ => List.mem_map_of_mem member
  have other : clusteredRow (reportFrom 2 "Kyiv" kyivShort) aside 7 ∈
      calm.items.filter (eligible {} atOnce fromKyiv) :=
    List.mem_filter.mpr ⟨List.mem_cons_of_mem _ List.mem_cons_self, by decide +kernel⟩
  have present := top.mem_of_length_le ((List.length_filter_le _ _).trans (by decide)) other
  have fits : Fits Python.plain twoDirections {} fromKyiv
      (clusteredRow (reportFrom 2 "Kyiv" kyivShort) aside 7) := by decide +kernel
  obtain ⟨row, member, _, _, storyId, story, joined⟩ :=
    (stored (by decide +kernel)).1 ⟨_, present, fits⟩
  have seven : ∀ row ∈ calm.items.filter (eligible {} atOnce fromKyiv), row.storyId = some 7 := by
    decide +kernel
  rwa [Option.some.inj ((seven row (top.subset member)).symm.trans story)]

end NewsAggregator.Cluster
