import NewsAggregator.Foundation.Limit
import NewsAggregator.Trust.Match

/-! Which claims the trust worker promotes: the query hands over the newest of the
records that share an entity, and the place is only looked at in those. -/

namespace NewsAggregator.Trust

open Cluster Foundation

section Spec

variable (py : Python) (cfg : MatcherConfig)

/-- The claim says something, and its item is a social member of its Story. -/
def Checkable (store : Store) (claim : ClaimResult) (item : ItemRow) : Prop :=
  py.strip claim.claim ≠ "" ∧ claimItem store claim.itemId = some item ∧
    item.storyId = some claim.storyId ∧ item.item.sourceClass = .social

/-- An official record around the time of the item that shares an entity with it. -/
def Aligned (item row : ItemRow) : Prop :=
  (row.item.sourceClass = .authoritative ∨ row.item.sourceClass = .primary) ∧
    (item.item.tsObserved.instant - cfg.window ≤ row.item.tsObserved.instant ∧
      row.item.tsObserved.instant ≤ item.item.tsObserved.instant + cfg.window) ∧
    (rowEntityTexts py item ∩ rowEntityTexts py row).Nonempty

/-- Both have coordinates, too far apart. -/
def Vetoed (item row : ItemRow) : Prop :=
  ∃ here ∈ item.item.geo, ∃ there ∈ row.item.geo,
    geoKmMax < haversineKm py here.lat here.lon there.lat there.lon

instance (item : ItemRow) : DecidablePred (Aligned py cfg item) :=
  fun _ => inferInstanceAs (Decidable (_ ∧ _))

/-- A record backs the claim. -/
def Backed (store : Store) (claim : ClaimResult) : Prop :=
  ∃ item, Checkable py store claim item ∧
    ∃ row ∈ store.items, Aligned py cfg item row ∧ ¬ Vetoed py item row

end Spec

section Match

variable {py : Python} {pg : Postgres} {cfg : MatcherConfig} {store : Store}
  {claim : ClaimResult} {item row : ItemRow}

/-- The rows the worker looks at for the claim of an item. -/
def recordsOf (py : Python) (pg : Postgres) (cfg : MatcherConfig) (store : Store)
    (item : ItemRow) : List ItemRow :=
  primaryCandidates pg store item.item.tsObserved.instant cfg.window (rowEntityTexts py item)
    cfg.candidateLimit

theorem tooFar_eq_false : tooFar py (item.item.geo.map Geo.lat) (item.item.geo.map Geo.lon)
    (matchCandidate py row) = false ↔ ¬ Vetoed py item row := by
  unfold tooFar Vetoed matchCandidate
  cases here : item.item.geo with
  | none => simp
  | some place =>
    cases there : row.item.geo with
    | none => simp
    | some other => simp

/-- The end of the handler. -/
private theorem execute_promote (surfaced : List (Uuid × Int)) (storyId : Uuid) (taken : ℕ)
    (record : Option Uuid) :
    Program.executeFrom (exec py pg surfaced) none taken
      (match record with
        | none => return ()
        | some _ => .perform (.promotePrimaryBacked storyId)) store =
      (some (), if record.isSome then promotePrimaryBacked store storyId else store) := by
  cases record with
  | none => simp [Program.executeFrom]
  | some record => simp [Program.perform, Program.executeFrom, exec]

theorem execute_checkable (surfaced : List (Uuid × Int))
    (checkable : Checkable py store claim item) :
    Program.execute (exec py pg surfaced) none (matchClaim py cfg claim) store =
      (some (), if (findPrimaryMatch py (rowEntityTexts py item) (item.item.geo.map Geo.lat)
          (item.item.geo.map Geo.lon) ((recordsOf py pg cfg store item).map
            (matchCandidate py))).isSome
        then promotePrimaryBacked store claim.storyId else store) := by
  obtain ⟨stated, found, member, social⟩ := checkable
  unfold matchClaim
  rw [if_neg stated]
  simp only [Program.perform_bind, Program.execute, Program.executeFrom, exec, found, member,
    social, ne_eq, not_true, if_false, reduceCtorEq]
  by_cases empty : rowEntityTexts py item = ∅
  · simp [findPrimaryMatch, empty, Program.executeFrom]
  · rw [if_neg empty]
    simp only [Program.executeFrom, reduceCtorEq, if_false]
    exact execute_promote surfaced claim.storyId _ _

theorem execute_not_checkable (surfaced : List (Uuid × Int))
    (unchecked : ¬ ∃ item, Checkable py store claim item) :
    Program.execute (exec py pg surfaced) none (matchClaim py cfg claim) store =
      (some (), store) := by
  unfold matchClaim
  by_cases blank : py.strip claim.claim = ""
  · simp [blank, Program.execute, Program.executeFrom]
  · rw [if_neg blank]
    simp only [Program.perform_bind, Program.execute, Program.executeFrom, exec, reduceCtorEq,
      if_false]
    cases found : claimItem store claim.itemId with
    | none => simp [Program.executeFrom]
    | some item =>
      by_cases member : item.storyId = some claim.storyId
      · have other : item.item.sourceClass ≠ .social := fun social =>
          unchecked ⟨item, blank, found, member, social⟩
        simp [member, other, Program.executeFrom]
      · simp [member, Program.executeFrom]

/-- The query filters by what is aligned, where `lower` folds like `casefold`. -/
theorem top_recordsOf
    (lowers : ∀ row ∈ store.items, ∀ entity ∈ row.item.entities,
      pg.lower entity.text = py.casefold entity.text) (item : ItemRow) :
    Top (fun row : ItemRow => row.item.tsObserved.instant) cfg.candidateLimit
      (store.items.filter (Aligned py cfg item)) (recordsOf py pg cfg store item) := by
  have shares : ∀ row ∈ store.items,
      (row.item.entities.any fun e => pg.lower e.text ∈ rowEntityTexts py item) = true ↔
        (rowEntityTexts py item ∩ rowEntityTexts py row).Nonempty := by
    intro row member
    rw [List.any_eq_true]
    constructor
    · rintro ⟨entity, listed, shared⟩
      rw [decide_eq_true_eq, lowers row member entity listed] at shared
      have nonempty := (Finset.mem_erase.mp shared).1
      have folded : py.casefold entity.text ∈
          (row.item.entities.map fun e => py.casefold e.text).toFinset :=
        List.mem_toFinset.mpr (List.mem_map_of_mem listed)
      exact ⟨_, Finset.mem_inter.mpr ⟨shared, Finset.mem_erase.mpr ⟨nonempty, folded⟩⟩⟩
    · rintro ⟨text, both⟩
      obtain ⟨own, other⟩ := Finset.mem_inter.mp both
      obtain ⟨entity, listed, rfl⟩ :=
        List.mem_map.mp (List.mem_toFinset.mp (Finset.mem_erase.mp other).2)
      refine ⟨entity, listed, ?_⟩
      rwa [decide_eq_true_eq, lowers row member entity listed]
  have filtered : (store.items.filter fun row =>
      (row.item.sourceClass = .authoritative ∨ row.item.sourceClass = .primary) ∧
        (item.item.tsObserved.instant - cfg.window ≤ row.item.tsObserved.instant ∧
          row.item.tsObserved.instant ≤ item.item.tsObserved.instant + cfg.window) ∧
        row.item.entities.any fun e => pg.lower e.text ∈ rowEntityTexts py item) =
      store.items.filter (Aligned py cfg item) := by
    refine List.filter_congr fun row member => ?_
    rw [decide_eq_decide, shares row member]
    rfl
  rw [← filtered]
  exact top_take _ _ _

theorem folded_rowEntityTexts (folds : ∀ text, py.casefold (py.casefold text) = py.casefold text)
    (item : ItemRow) : ((rowEntityTexts py item).filter (· ≠ "")).image py.casefold =
      rowEntityTexts py item := by
  have fixed : ∀ text ∈ rowEntityTexts py item, py.casefold text = text := by
    intro text member
    obtain ⟨entity, _, rfl⟩ :=
      List.mem_map.mp (List.mem_toFinset.mp (Finset.mem_erase.mp member).2)
    exact folds entity.text
  have nonempty : ∀ text ∈ rowEntityTexts py item, text ≠ "" := fun text member =>
    (Finset.mem_erase.mp member).1
  rw [Finset.filter_true_of_mem nonempty, Finset.image_congr fixed, Finset.image_id']

theorem aligned_of_mem_recordsOf
    (lowers : ∀ row ∈ store.items, ∀ entity ∈ row.item.entities,
      pg.lower entity.text = py.casefold entity.text)
    (member : row ∈ recordsOf py pg cfg store item) : Aligned py cfg item row :=
  of_decide_eq_true (List.mem_filter.mp ((top_recordsOf lowers item).subset member)).2

/-- The first record that is not too far away is one of the aligned ones. -/
theorem findPrimaryMatch_isSome
    (folds : ∀ text, py.casefold (py.casefold text) = py.casefold text) {records : List ItemRow}
    (aligned : ∀ row ∈ records, Aligned py cfg item row) :
    (findPrimaryMatch py (rowEntityTexts py item) (item.item.geo.map Geo.lat)
      (item.item.geo.map Geo.lon) (records.map (matchCandidate py))).isSome ↔
      ∃ row ∈ records, ¬ Vetoed py item row := by
  unfold findPrimaryMatch
  rw [folded_rowEntityTexts folds]
  dsimp only
  split
  · rename_i empty
    refine iff_of_false (by simp) ?_
    rintro ⟨row, member, _⟩
    obtain ⟨text, both⟩ := (aligned row member).2.2
    rw [empty, Finset.empty_inter] at both
    exact absurd both (Finset.notMem_empty text)
  · rw [Option.isSome_map, List.find?_isSome]
    constructor
    · rintro ⟨candidate, listed, holds⟩
      obtain ⟨row, member, rfl⟩ := List.mem_map.mp listed
      exact ⟨row, member, tooFar_eq_false.mp (of_decide_eq_true holds).2⟩
    · rintro ⟨row, member, near⟩
      refine ⟨_, List.mem_map_of_mem member, decide_eq_true ⟨?_, tooFar_eq_false.mpr near⟩⟩
      exact (aligned row member).2.2

end Match

/-- The worker promotes a checkable claim exactly if one of the newest records that are
aligned with its item, as many as the limit lets through, is not vetoed. -/
theorem promotion_iff (py : Python) (pg : Postgres) (surfaced : List (Uuid × Int))
    (cfg : MatcherConfig) (claim : ClaimResult) (store : Store)
    (folds : ∀ text, py.casefold (py.casefold text) = py.casefold text)
    (lowers : ∀ row ∈ store.items, ∀ entity ∈ row.item.entities,
      pg.lower entity.text = py.casefold entity.text) :
    ∃ newest : ItemRow → List ItemRow,
      (∀ item, Top (fun row : ItemRow => row.item.tsObserved.instant) cfg.candidateLimit
        (store.items.filter (Aligned py cfg item)) (newest item)) ∧
      ((∃ item, Checkable py store claim item ∧ ∃ row ∈ newest item, ¬ Vetoed py item row) →
        Program.execute (exec py pg surfaced) none (matchClaim py cfg claim) store =
          (some (), promotePrimaryBacked store claim.storyId)) ∧
      ((¬ ∃ item, Checkable py store claim item ∧ ∃ row ∈ newest item, ¬ Vetoed py item row) →
        Program.execute (exec py pg surfaced) none (matchClaim py cfg claim) store =
          (some (), store)) := by
  have matched : ∀ item, _ ↔ ∃ row ∈ recordsOf py pg cfg store item, ¬ Vetoed py item row :=
    fun item => findPrimaryMatch_isSome folds fun row => aligned_of_mem_recordsOf lowers
  refine ⟨recordsOf py pg cfg store, top_recordsOf lowers, ?_, ?_⟩
  · intro backed
    obtain ⟨item, checkable, record⟩ := backed
    rw [execute_checkable surfaced checkable, if_pos ((matched item).mpr record)]
  · intro unbacked
    by_cases checked : ∃ item, Checkable py store claim item
    · obtain ⟨item, checkable⟩ := checked
      rw [execute_checkable surfaced checkable, if_neg]
      intro found
      exact unbacked ⟨item, checkable, (matched item).mp found⟩
    · exact execute_not_checkable surfaced checked

/-! Official records from the far side of the globe, newer than one without a place. -/

def halfTurn : ℚ := 884279719003555 / 281474976710656

/-- Plain text, and `math` at the angles between two antipodes on the equator. -/
def sphere : Python :=
  { Python.plain with
    radians := fun x => x / 180 * halfTurn
    sin := fun x => if x = 0 then 0 else 1
    cos := fun _ => 1
    asin := fun x => if x = 0 then 0 else halfTurn / 2 }

def textPostgres : Postgres where
  lower := Python.plain.lower
  similarity _ _ := ⊥

theorem kyivCap : "Kyiv".length ≤ 256 := by decide

def kyiv : Entity := { text := "Kyiv", textCap := kyivCap }

theorem equatorRange : (-90 : ℚ) ≤ 0 ∧ (0 : ℚ) ≤ 90 := by decide +kernel

theorem noHashCap : ∀ hash : String, none = some hash → hash.length ≤ 16 := by simp

/-- A place on the equator. -/
def onEquator (lon : ℚ) (range : -180 ≤ lon ∧ lon ≤ 180) : Geo where
  lat := 0
  lon := lon
  latRange := equatorRange
  lonRange := range
  geohashCap := noHashCap

/-- A social post about Kyiv, in Story 7. -/
def post : ItemRow where
  item := {
    id := 1, source := "bluesky", sourceClass := .social, tsObserved := ⟨0, 0⟩, text := "Blasts"
    entities := [kyiv], geo := some (onEquator 0 (by decide +kernel)) }
  embedding := none
  storyId := some 7

def bulletin (id : Uuid) (observed : Int) (geo : Option Geo) : ItemRow where
  item := {
    id := id, source := "usgs", sourceClass := .authoritative, tsObserved := ⟨observed, 0⟩
    text := "M 5.1", entities := [kyiv], geo := geo }
  embedding := none

/-- As many bulletins from afar as the limit lets through, and one older. -/
def crowded : Store where
  items := post :: bulletin 2 0 none :: (List.range 50).map fun i =>
    bulletin (10 + i) 1 (some (onEquator 180 (by decide +kernel)))
  stories := [{
    id := 7, firstSeen := 0, lastSeen := 0, entitySet := {"kyiv"}, sourceSet := {"bluesky"}
    independentOrigins := 1, centroid := none }]

def blasts : ClaimResult where
  storyId := 7
  itemId := 1
  claim := "Blasts were heard in Kyiv"
  claimCap := by decide

theorem crowded_missed : Backed sphere {} crowded blasts ∧
    Program.execute (exec sphere textPostgres []) none (matchClaim sphere {} blasts) crowded =
      (some (), crowded) ∧
    promotePrimaryBacked crowded blasts.storyId ≠ crowded := by
  have checkable : Checkable sphere crowded blasts post :=
    ⟨by decide +kernel, rfl, by decide, by decide⟩
  refine ⟨⟨post, checkable, bulletin 2 0 none, ?_, ?_, ?_⟩, ?_, ?_⟩
  · exact List.mem_cons_of_mem _ List.mem_cons_self
  · decide +kernel
  · rintro ⟨_, _, _, none, _⟩
    cases none
  · rw [execute_checkable [] checkable, if_neg]
    decide +kernel
  · intro same
    have states := congrArg (fun store => store.stories.map StoryRow.trustState) same
    revert states
    decide

/-- With one bulletin the claim is promoted. -/
theorem promotion_iff_nearby :
    let nearby : Store := { crowded with items := [post, bulletin 2 0 none] }
    Program.execute (exec sphere textPostgres []) none (matchClaim sphere {} blasts) nearby =
      (some (), promotePrimaryBacked nearby blasts.storyId) := by
  intro nearby
  obtain ⟨newest, tops, promotes, _⟩ := promotion_iff sphere textPostgres [] {} blasts nearby
    Python.plain_casefold fun _ _ _ _ => rfl
  have checkable : Checkable sphere nearby blasts post :=
    ⟨by decide +kernel, rfl, by decide, by decide⟩
  have aligned : bulletin 2 0 none ∈ nearby.items.filter (Aligned sphere {} post) :=
    List.mem_filter.mpr ⟨List.mem_cons_of_mem _ List.mem_cons_self, by decide +kernel⟩
  refine promotes ⟨post, checkable, bulletin 2 0 none, ?_, ?_⟩
  · exact (tops post).mem_of_length_le ((List.length_filter_le _ _).trans (by decide)) aligned
  · rintro ⟨_, _, _, none, _⟩
    cases none

end NewsAggregator.Trust
