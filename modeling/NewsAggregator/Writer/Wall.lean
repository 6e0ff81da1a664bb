import NewsAggregator.Foundation.Run
import NewsAggregator.Writer.Db

/-! The 5-day wall: how long a stored row lives when partitions are dropped daily. -/

namespace NewsAggregator.Writer

open Foundation

/-- An attempt at an insert, a new writer process, or the daily job. -/
inductive WallEvent where
  | insert (now : Int) (enriched : EnrichedItem) (cut : Option ℕ)
  | restart
  | daily (now : Int)

/-- `provision_partitions` and `drop_old_partitions` with their defaults. -/
def dailyJob (now : Int) (items : PartitionedTable StoredRow) : PartitionedTable StoredRow :=
  (items.provision (utcDay now) 5 1).dropOld StoredRow.ts (utcDay now) 5

def wallStep (db : WriterDb) : WallEvent → WriterDb
  | .insert now enriched cut =>
    ((insertItem enriched).execute (writerExec now) cut db).2
  | .restart => { db with ensured := ∅ }
  | .daily now => { db with items := dailyJob now db.items }

/-- Right after a daily run no row is left that was inserted more than 6 days before. -/
def Walled (db : WriterDb) : WallEvent → Prop
  | .daily now => ∀ row ∈ (wallStep db (.daily now)).items.rows,
      now - row.insertedAt ≤ 6 * dayLength
  | _ => True

/-- The item was not observed on a later day than the one it is inserted on. -/
def Observed : WallEvent → Prop
  | .insert now enriched _ => utcDay enriched.item.tsObserved.instant ≤ utcDay now
  | _ => True

/-- No row is in the partition of a day after its insert. -/
def Dated (db : WriterDb) : Prop := ∀ row ∈ db.items.rows, utcDay row.ts ≤ utcDay row.insertedAt

variable {db : WriterDb}

theorem placed_yields {now : Int} {cut : Option ℕ} {taken : ℕ} {placed : Bool}
    {state final : WriterDb} {result : Option Unit}
    (yields : Program.Yields (writerExec now) cut taken (if placed then pure () else .raise) state
      result final) : final = state := by
  cases placed with
  | true => exact (Program.yields_done.mp yields).1
  | false => exact (Program.yields_raise.mp yields).1

/-- What an attempt at an insert leaves in the table. -/
theorem rows_insertItem {now : Int} {enriched : EnrichedItem} {cut : Option ℕ} {row : StoredRow}
    (member : row ∈ ((insertItem enriched).execute (writerExec now) cut db).2.items.rows) :
    row ∈ db.items.rows ∨ row = rowOf now enriched := by
  have yields := Program.execute_yields (writerExec now) cut (insertItem enriched) db
  generalize ((insertItem enriched).execute (writerExec now) cut db).2 = final at member yields
  unfold insertItem at yields
  simp only [Program.perform_bind, Program.yields_call, writerExec] at yields
  rcases yields with ⟨_, rfl, _⟩ | ⟨_, ⟨_, rfl, _⟩ | ⟨_, later⟩⟩
  · exact .inl member
  · exact .inl (by simpa using member)
  have ended := placed_yields later
  rw [ended] at member
  rcases insertRow_cases now (ensureItemsPartition db enriched.item.tsObserved.date) enriched with
    same | ⟨same, _⟩ | ⟨_, added⟩
  · rw [same] at member
    exact .inl (by simpa using member)
  · rw [same] at member
    exact .inl (by simpa using member)
  · rw [added] at member
    simpa using member

theorem dated_step {event : WallEvent} (dated : Dated db) (observed : Observed event) :
    Dated (wallStep db event) := by
  cases event with
  | insert now enriched cut =>
    intro row member
    rcases rows_insertItem member with old | rfl
    · exact dated row old
    · exact observed
  | restart => exact dated
  | daily now => exact fun row member => dated row (List.mem_of_mem_filter member)

theorem walled_of_dated {event : WallEvent} (dated : Dated db) : Walled db event := by
  cases event with
  | daily now =>
    intro row member
    obtain ⟨old, recent⟩ := List.mem_filter.mp member
    have early := dated row old
    have kept : utcDay now - 5 ≤ utcDay row.ts := of_decide_eq_true recent
    have inserted : (utcDay now - 5) * dayLength ≤ row.insertedAt :=
      le_utcDay_iff.mp (kept.trans early)
    have today : now < (utcDay now + 1) * dayLength := utcDay_le_iff.mp (le_refl _)
    unfold dayLength at inserted today ⊢
    omega
  | insert now enriched cut => trivial
  | restart => trivial

/-- In any run whose inserts carry no later day than their own, every daily run
leaves only rows of the last six days. -/
theorem wall_bounds_lifetime (events : List WallEvent)
    (observed : Along wallStep (fun _ event => Observed event) {} events) :
    Along wallStep Walled {} events :=
  observed.consequence Dated (by simp [Dated])
    (fun _ _ dated meets => dated_step dated meets) (fun _ _ dated _ => walled_of_dated dated)

/-- The condition is sharp up to the last microsecond of a day: a row of a later day
outlives a daily run. -/
theorem late_outlives {now : Int} {enriched : EnrichedItem}
    (late : utcDay (now + 1) < utcDay enriched.item.tsObserved.instant)
    (stored : rowOf now enriched ∈ db.items.rows) :
    ¬ Walled db (.daily (now + 1 + 6 * dayLength)) := by
  intro walled
  have today : utcDay (now + 1 + 6 * dayLength) = utcDay (now + 1) + 6 :=
    Int.add_mul_ediv_right _ _ (by decide)
  have kept : utcDay (now + 1 + 6 * dayLength) - 5 ≤ utcDay (rowOf now enriched).ts := by
    have placed : utcDay (rowOf now enriched).ts = utcDay enriched.item.tsObserved.instant := rfl
    omega
  have bound : now + 1 + 6 * dayLength - now ≤ 6 * dayLength :=
    walled _ (List.mem_filter.mpr ⟨stored, decide_eq_true kept⟩)
  omega

/-- A report that says it was observed on the given day. -/
def observedOn (day : Int) : EnrichedItem where
  item := { (notice 1 "usgs" "quake") with tsObserved := ⟨day * dayLength, 0⟩ }
  embedding _ := 1

theorem today_walled :
    Along wallStep Walled {} [.insert 5 (observedOn 0) none, .daily (7 * dayLength)] :=
  wall_bounds_lifetime _ ⟨(by decide : utcDay (0 * dayLength) ≤ utcDay 5), trivial, trivial⟩

/-- A report from a far day outlives the wall. -/
theorem future_outlives :
    ¬ Along wallStep Walled {} [.insert 5 (observedOn 1000) none, .daily (7 * dayLength)] := by
  intro walled
  have kept : 5 ∈ (run wallStep {} [.insert 5 (observedOn 1000) none,
      .daily (7 * dayLength)]).items.rows.map StoredRow.insertedAt := by decide +kernel
  obtain ⟨row, member, inserted⟩ := List.mem_map.mp kept
  have bound := walled.2.1 row member
  rw [inserted] at bound
  exact absurd bound (by decide)

end NewsAggregator.Writer
