import Mathlib.Algebra.Order.Ring.Int
import Mathlib.Data.Finset.Image
import Mathlib.Data.Finset.Range
import NewsAggregator.Schema.Item

/-! Tables partitioned by day, as `schema.sql` declares them: provisioned ahead and
on demand, and dropped as whole days. The name of a partition ends in its day. -/

namespace NewsAggregator

/-- Microseconds of a day. -/
def dayLength : Int := 86400000000

/-- The day of an instant, in the time zone of the server. -/
def utcDay (instant : Int) : Int := instant / dayLength

/-- `date()`: the day in the offset the timestamp was written in. -/
def DateTime.date (time : DateTime) : Int := utcDay (time.instant + time.utcoffset * 1000000)

/-- The days that have a partition, and the rows. -/
structure PartitionedTable (ρ : Type) where
  partitions : Finset Int := ∅
  rows : List ρ := []

namespace PartitionedTable

variable {ρ : Type}

/-- `ensure_*_partition`. -/
def ensure (table : PartitionedTable ρ) (day : Int) : PartitionedTable ρ :=
  { table with partitions := insert day table.partitions }

/-- `provision_partitions`. -/
def provision (table : PartitionedTable ρ) (today back ahead : Int) : PartitionedTable ρ :=
  let days := (Finset.range (back + ahead + 1).toNat).image fun (i : ℕ) => today - back + i
  { table with partitions := table.partitions ∪ days }

/-- `drop_old_partitions`; a row goes with the partition of its timestamp. -/
def dropOld (table : PartitionedTable ρ) (ts : ρ → Int) (today retentionDays : Int) :
    PartitionedTable ρ :=
  let cutoff := today - retentionDays
  { partitions := table.partitions.filter (cutoff ≤ ·)
    rows := table.rows.filter fun row => cutoff ≤ utcDay (ts row) }

/-- Whether the server finds the partition of a row. -/
def places (table : PartitionedTable ρ) (ts : Int) : Bool := utcDay ts ∈ table.partitions

end PartitionedTable

/-- What an insert meets: the days of its table that have a partition, and the days that its
process has ensured. -/
structure Provision where
  partitions : Finset Int := ∅
  ensured : Finset Int := ∅

/-- Whether the server finds the partition of a row, after `_ensure_*_partition`. -/
def Provision.places (provision : Provision) (time : DateTime) : Bool :=
  utcDay time.instant ∈
    if time.date ∈ provision.ensured then provision.partitions
    else insert time.date provision.partitions

/-- A row finds its partition if that is there, or if its own date is its day in UTC and its
process has not ensured that day before. -/
theorem Provision.places_iff {provision : Provision} {time : DateTime} :
    provision.places time = true ↔ utcDay time.instant ∈ provision.partitions ∨
      time.date = utcDay time.instant ∧ time.date ∉ provision.ensured := by
  rw [Provision.places, decide_eq_true_iff]
  split
  · rename_i cached
    simp [cached]
  · rename_i fresh
    rw [Finset.mem_insert, or_comm, eq_comm]
    simp [fresh]

theorem utcDay_le_iff {day instant : Int} : utcDay instant ≤ day ↔
    instant < (day + 1) * dayLength := by
  rw [utcDay, ← Int.lt_add_one_iff]
  exact Int.ediv_lt_iff_lt_mul (by decide)

theorem le_utcDay_iff {day instant : Int} : day ≤ utcDay instant ↔ day * dayLength ≤ instant :=
  Int.le_ediv_iff_mul_le (by decide)

end NewsAggregator
