import NewsAggregator.Writer.Wall

/-! Whether `insert_item` finds a partition for its row: the writer's cache of ensured
days next to the jobs that provision partitions and drop them. -/

namespace NewsAggregator.Writer

open Foundation

/-- What happens to the partitions of `items`: an attempt at an insert by this process, its
restart, a partition ensured for another process (or one whose answer was lost), and the
two jobs. -/
inductive PartitionEvent where
  | insert (now : Int) (enriched : EnrichedItem) (cut : Option ℕ)
  | restart
  | ensure (day : Int)
  | provision (now back ahead : Int)
  | dropOld (now retentionDays : Int)

def partitionStep (db : WriterDb) : PartitionEvent → WriterDb
  | .insert now enriched cut => ((insertItem enriched).execute (writerExec now) cut db).2
  | .restart => { db with ensured := ∅ }
  | .ensure day => { db with items := db.items.ensure day }
  | .provision now back ahead => { db with items := db.items.provision (utcDay now) back ahead }
  | .dropOld now retentionDays =>
    { db with items := db.items.dropOld StoredRow.ts (utcDay now) retentionDays }

/-- After the partition step of an insert a partition holds the item's `ts_observed`. -/
def Finds (db : WriterDb) : PartitionEvent → Prop
  | .insert _ enriched _ =>
    (ensureItemsPartition db enriched.item.tsObserved.date).items.places
      enriched.item.tsObserved.instant
  | _ => True

/-- The partition is there, or the item's own date is its day in UTC and the process has
not ensured that day yet. -/
def Placed (db : WriterDb) : PartitionEvent → Prop
  | .insert _ enriched _ =>
    utcDay enriched.item.tsObserved.instant ∈ db.items.partitions ∨
      enriched.item.tsObserved.date = utcDay enriched.item.tsObserved.instant ∧
        enriched.item.tsObserved.date ∉ db.ensured
  | _ => True

section Steps

variable {db : WriterDb}

theorem mem_partitions_ensureItemsPartition {day other : Int} :
    other ∈ (ensureItemsPartition db day).items.partitions ↔
      other ∈ db.items.partitions ∨ other = day ∧ day ∉ db.ensured := by
  rw [ensureItemsPartition]
  split
  · rename_i cached
    simp [cached]
  · rename_i fresh
    simp [PartitionedTable.ensure, fresh, or_comm]

@[simp] theorem ensured_ensureItemsPartition (day : Int) :
    (ensureItemsPartition db day).ensured = insert day db.ensured := by
  rw [ensureItemsPartition]
  split
  · rename_i cached
    exact (Finset.insert_eq_of_mem cached).symm
  · rfl

theorem finds_insert {now : Int} {enriched : EnrichedItem} {cut : Option ℕ} :
    Finds db (.insert now enriched cut) ↔
      Provision.places ⟨db.items.partitions, db.ensured⟩ enriched.item.tsObserved = true := by
  rw [Provision.places_iff]
  refine decide_eq_true_iff.trans (mem_partitions_ensureItemsPartition.trans ?_)
  exact or_congr_right (and_congr_left fun _ => eq_comm)

theorem finds_iff_placed {event : PartitionEvent} : Finds db event ↔ Placed db event := by
  cases event with
  | insert now enriched cut => exact finds_insert.trans Provision.places_iff
  | restart => rfl
  | ensure day => rfl
  | provision now back ahead => rfl
  | dropOld now retentionDays => rfl

theorem partitions_insertRow (db : WriterDb) (now : Int) (enriched : EnrichedItem) :
    (insertRow now db enriched).2.items.partitions = db.items.partitions ∧
      (insertRow now db enriched).2.ensured = db.ensured := by
  rcases insertRow_cases now db enriched with same | ⟨same, _⟩ | ⟨_, added⟩
  · rw [same]; exact ⟨rfl, rfl⟩
  · rw [same]; exact ⟨rfl, rfl⟩
  · rw [added]; exact ⟨rfl, rfl⟩

/-- An attempt that is not cut off at once leaves the days of its partition step. -/
theorem partitions_insertItem (db : WriterDb) (now : Int) (enriched : EnrichedItem)
    (cut : Option ℕ) :
    ((partitionStep db (.insert now enriched cut)).items.partitions = db.items.partitions ∧
        (partitionStep db (.insert now enriched cut)).ensured = db.ensured) ∨
      ((partitionStep db (.insert now enriched cut)).items.partitions =
          (ensureItemsPartition db enriched.item.tsObserved.date).items.partitions ∧
        (partitionStep db (.insert now enriched cut)).ensured =
          insert enriched.item.tsObserved.date db.ensured) := by
  have yields := Program.execute_yields (writerExec now) cut (insertItem enriched) db
  simp only [partitionStep]
  generalize ((insertItem enriched).execute (writerExec now) cut db).2 = final at yields ⊢
  unfold insertItem at yields
  simp only [Program.perform_bind, Program.yields_call, writerExec] at yields
  rcases yields with ⟨_, rfl, _⟩ | ⟨_, ⟨_, rfl, _⟩ | ⟨_, later⟩⟩
  · exact .inl ⟨rfl, rfl⟩
  · exact .inr ⟨rfl, ensured_ensureItemsPartition _⟩
  rw [placed_yields later]
  have kept := partitions_insertRow (ensureItemsPartition db enriched.item.tsObserved.date) now
    enriched
  exact .inr ⟨kept.1, kept.2.trans (ensured_ensureItemsPartition _)⟩

end Steps

/-- The event drops the partition of the day. -/
def Sweeps (day : Int) : PartitionEvent → Prop
  | .dropOld now retentionDays => day < utcDay now - retentionDays
  | _ => False

/-- Every day of the cache has its partition, unless a drop passed it. -/
def Backed (swept : Int → Prop) (db : WriterDb) : Prop :=
  ∀ day ∈ db.ensured, day ∈ db.items.partitions ∨ swept day

theorem backed_step {swept : Int → Prop} {db : WriterDb} (backed : Backed swept db)
    (event : PartitionEvent) :
    Backed (fun day => swept day ∨ Sweeps day event) (partitionStep db event) := by
  intro day cached
  cases event with
  | insert now enriched cut =>
    rcases partitions_insertItem db now enriched cut with ⟨same, cache⟩ | ⟨same, cache⟩
    · rw [cache] at cached
      rw [same]
      exact (backed day cached).imp_right .inl
    · rw [cache, Finset.mem_insert] at cached
      rw [same, mem_partitions_ensureItemsPartition]
      by_cases old : day ∈ db.ensured
      · exact (backed day old).imp .inl .inl
      · have here : day = enriched.item.tsObserved.date := cached.resolve_right old
        exact .inl (.inr ⟨here, here ▸ old⟩)
  | restart => exact absurd cached (Finset.notMem_empty day)
  | ensure other => exact (backed day cached).imp (Finset.mem_insert_of_mem ·) .inl
  | provision now back ahead => exact (backed day cached).imp (Finset.mem_union_left _ ·) .inl
  | dropOld now retentionDays =>
    by_cases old : day < utcDay now - retentionDays
    · exact .inr (.inr old)
    · refine (backed day cached).imp (fun there => ?_) .inl
      exact Finset.mem_filter.mpr ⟨there, not_lt.mp old⟩

/-- A day the process believes ensured has a partition, unless a drop has passed it since
the start. -/
theorem backed_run {db : WriterDb} (fresh : db.ensured = ∅) (events : List PartitionEvent) :
    Backed (fun day => ∃ event ∈ events, Sweeps day event) (run partitionStep db events) := by
  induction events using List.reverseRecOn with
  | nil => simp [Backed, fresh]
  | append_singleton before event ih =>
    rw [run_concat]
    intro day cached
    refine (backed_step ih event day cached).imp_right ?_
    rintro (⟨earlier, member, sweeps⟩ | sweeps)
    · exact ⟨earlier, List.mem_append_left _ member, sweeps⟩
    · exact ⟨event, List.mem_append_right _ List.mem_cons_self, sweeps⟩

/-- In a run of a new process, an item whose date is its day in UTC finds its partition as
long as no drop has passed that day. -/
theorem placed_of_unswept {db : WriterDb} (fresh : db.ensured = ∅) {before : List PartitionEvent}
    {now : Int} {enriched : EnrichedItem} {cut : Option ℕ}
    (dated : enriched.item.tsObserved.date = utcDay enriched.item.tsObserved.instant)
    (kept : ∀ event ∈ before, ¬ Sweeps enriched.item.tsObserved.date event) :
    Placed (run partitionStep db before) (.insert now enriched cut) := by
  by_cases cached : enriched.item.tsObserved.date ∈ (run partitionStep db before).ensured
  · rcases backed_run fresh before _ cached with there | ⟨event, member, sweeps⟩
    · exact .inl (dated ▸ there)
    · exact absurd sweeps (kept event member)
  · exact .inr ⟨dated, cached⟩

/-- The cache outlives the partition: after a drop of its day, the next item of a day the
process has ensured finds none. -/
theorem swept_not_finds {db : WriterDb} {now retentionDays later : Int} {enriched : EnrichedItem}
    {cut : Option ℕ} (cached : enriched.item.tsObserved.date ∈ db.ensured)
    (old : utcDay enriched.item.tsObserved.instant < utcDay now - retentionDays) :
    ¬ Finds (partitionStep db (.dropOld now retentionDays)) (.insert later enriched cut) := by
  intro finds
  rcases finds_iff_placed.mp finds with there | ⟨_, fresh⟩
  · exact absurd (Finset.mem_filter.mp there).2 (not_le.mpr old)
  · exact fresh cached

/-- Every insert of a run finds its partition exactly when each finds it there already, or
carries its day in UTC as its date and is the first of that day since the process started. -/
theorem inserts_find_iff (db : WriterDb) (events : List PartitionEvent) :
    Along partitionStep Finds db events ↔ Along partitionStep Placed db events := by
  induction events generalizing db with
  | nil => rfl
  | cons event rest ih => exact and_congr finds_iff_placed (ih _)

/-- A report of half past midnight, two hours ahead of UTC. -/
def aheadOfUtc : EnrichedItem where
  item := { (notice 1 "mastodon" "quake") with
    tsObserved := ⟨dayLength - 5400000000, 7200⟩ }
  embedding _ := 1

/-- Its date is the next day in UTC, and only that day gets a partition. -/
theorem ahead_unplaced : ¬ Along partitionStep Finds {} [.insert 0 aheadOfUtc none] := by
  rintro ⟨finds, _⟩
  have missing : Placed {} (.insert 0 aheadOfUtc none) → False := by
    unfold Placed
    decide +kernel
  exact missing (finds_iff_placed.mp finds)

end NewsAggregator.Writer
