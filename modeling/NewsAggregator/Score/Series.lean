import Mathlib.Algebra.BigOperators.Ring.Finset
import Mathlib.Algebra.Order.BigOperators.Group.List
import NewsAggregator.Foundation.Binning
import NewsAggregator.Score.Scorer

/-! What the velocity series counts: the bins of the statement against those of
`_bin_floor`, and the rows of a slot against the rows of the window. -/

namespace NewsAggregator.Score

open Enrich Foundation

def mentions (rows : List TallyRow) : ℚ := (rows.map fun row => (row.mentions : ℚ)).sum

/-- The series a cycle scores for a Story. -/
def series (cfg : Config) (db : Tables) (entities : Finset String) (since now : Int) : List ℚ :=
  fillSeries (db.mentionSeries entities since cfg.bin) since (binFloor cfg.bin now) cfg.bin

/-- The rows `_MENTION_SERIES` adds up for the bin that starts at `start`. -/
def slotRows (cfg : Config) (db : Tables) (entities : Finset String) (since start : Int) :
    List TallyRow :=
  (db.entityTallies.filter fun row => row.entity ∈ entities ∧ since < row.bucketTs).filter
    fun row => Tables.dateBin cfg.bin row.bucketTs = start

/-- The rows of the Story's entities from `since` to now. -/
def windowRows (db : Tables) (entities : Finset String) (since now : Int) : List TallyRow :=
  db.entityTallies.filter fun row =>
    row.entity ∈ entities ∧ since ≤ row.bucketTs ∧ row.bucketTs ≤ now

/-- The series loses and duplicates nothing: each row of the window is counted in one slot,
that of its bin, the sum is that of the window, and both sides bin on one grid. -/
structure Lossless (cfg : Config) (db : Tables) (entities : Finset String) (since now : Int) :
    Prop where
  slotted : series cfg db entities since now =
    (slots since (binFloor cfg.bin now) cfg.bin).map fun start =>
      mentions (slotRows cfg db entities since start)
  apart : (slots since (binFloor cfg.bin now) cfg.bin).Nodup
  counted : ∀ row ∈ windowRows db entities since now, ∀ start,
    start ∈ slots since (binFloor cfg.bin now) cfg.bin ∧
        row ∈ slotRows cfg db entities since start ↔
      start = Tables.dateBin cfg.bin row.bucketTs
  total : (series cfg db entities since now).sum = mentions (windowRows db entities since now)
  grid : Set.range (binFloor cfg.bin) = Set.range (Tables.dateBin cfg.bin)

/-- No row of the window lies right at its start, and none after now counts anything in the
last bin. -/
structure Interior (cfg : Config) (db : Tables) (entities : Finset String) (since now : Int) :
    Prop where
  start : ∀ row ∈ db.entityTallies, row.entity ∈ entities → since ≤ now → row.bucketTs ≠ since
  ahead : ∀ row ∈ db.entityTallies, row.entity ∈ entities → since < row.bucketTs →
    now < row.bucketTs → row.bucketTs < binFloor cfg.bin now + cfg.bin → row.mentions = 0

section Grids

variable {cfg : Config}

theorem Config.binPositive (cfg : Config) : 0 < cfg.bin := by
  have long := cfg.binSeconds
  omega

/-- For a bin of whole seconds, `_bin_floor` is `date_bin` of the second it truncates to. -/
theorem binFloor_eq (whole : 1000000 ∣ cfg.bin) (ts : Int) :
    binFloor cfg.bin ts = Tables.dateBin cfg.bin (ts.tdiv 1000000 * 1000000) := by
  obtain ⟨seconds, wide⟩ := whole
  have count : cfg.bin / 1000000 = seconds := by omega
  simp only [binFloor, Tables.dateBin, count]
  rw [wide, Int.mul_comm 1000000 seconds,
    Int.mul_ediv_mul_of_pos_left _ _ (by decide : (0 : Int) < 1000000), Int.mul_assoc]

/-- From the epoch on both take a time to the same bin. -/
theorem binFloor_eq_dateBin (whole : 1000000 ∣ cfg.bin) {ts : Int} (later : 0 ≤ ts) :
    binFloor cfg.bin ts = Tables.dateBin cfg.bin ts := by
  obtain ⟨seconds, wide⟩ := whole
  have count : cfg.bin / 1000000 = seconds := by omega
  simp only [binFloor, Tables.dateBin, count]
  rw [Int.tdiv_eq_ediv_of_nonneg later, wide, Int.ediv_ediv_of_nonneg (by decide), Int.mul_assoc,
    Int.mul_comm seconds]

theorem dvd_binFloor (whole : 1000000 ∣ cfg.bin) (ts : Int) : cfg.bin ∣ binFloor cfg.bin ts := by
  rw [binFloor_eq whole]
  exact dvd_binOf _

theorem range_binFloor (whole : 1000000 ∣ cfg.bin) :
    Set.range (binFloor cfg.bin) = Set.range (Tables.dateBin cfg.bin) := by
  refine Set.Subset.antisymm ?_ ?_
  · rintro _ ⟨ts, rfl⟩
    exact ⟨_, (binFloor_eq whole ts).symm⟩
  · rintro _ ⟨ts, rfl⟩
    -- a start of a bin is a whole second, so truncating leaves it
    have second : 1000000 ∣ Tables.dateBin cfg.bin ts := whole.trans (dvd_binOf ts)
    refine ⟨Tables.dateBin cfg.bin ts, ?_⟩
    rw [binFloor_eq whole, Int.tdiv_mul_cancel second]
    exact binOf_of_dvd (dvd_binOf ts)

/-- The last slot reaches past now, also before the epoch, where truncating rounds up. -/
theorem lt_binFloor_add (whole : 1000000 ∣ cfg.bin) (now : Int) :
    now < binFloor cfg.bin now + cfg.bin := by
  by_cases later : 0 ≤ now
  · rw [binFloor_eq_dateBin whole later]
    exact lt_binOf_add cfg.binPositive now
  · have rounded : now ≤ now.tdiv 1000000 * 1000000 := by
      have turned : (-now).tdiv 1000000 = -(now.tdiv 1000000) := Int.neg_tdiv now 1000000
      rw [Int.tdiv_eq_ediv_of_nonneg (by omega)] at turned
      omega
    rw [binFloor_eq whole]
    exact rounded.trans_lt (lt_binOf_add cfg.binPositive _)

theorem dvd_sinceOf (whole : 1000000 ∣ cfg.bin) (now : Int) (earliest : Option Int) :
    cfg.bin ∣ sinceOf cfg now earliest := by
  cases earliest with
  | none => exact dvd_binFloor whole now
  | some first => exact dvd_binFloor whole _

end Grids

section Counting

variable {cfg : Config} {db : Tables} {entities : Finset String} {since now : Int}

theorem mem_slotRows {row : TallyRow} {start : Int} :
    row ∈ slotRows cfg db entities since start ↔
      (row ∈ db.entityTallies ∧ row.entity ∈ entities ∧ since < row.bucketTs) ∧
        Tables.dateBin cfg.bin row.bucketTs = start := by
  simp only [slotRows, List.mem_filter, decide_eq_true_eq]

theorem mem_windowRows {row : TallyRow} :
    row ∈ windowRows db entities since now ↔
      row ∈ db.entityTallies ∧ row.entity ∈ entities ∧ since ≤ row.bucketTs ∧
        row.bucketTs ≤ now := by
  simp [windowRows, List.mem_filter]

/-- What the statement returns for a bin: the sum over its rows, nothing for an empty one. -/
theorem lookup_mentionSeries (start : Int) :
    ((db.mentionSeries entities since cfg.bin).lookup start).getD 0 =
      mentions (slotRows cfg db entities since start) := by
  rw [Tables.mentionSeries, lookup_map_eq]
  split
  · rfl
  · rename_i absent
    have empty : slotRows cfg db entities since start = [] := by
      refine List.eq_nil_iff_forall_not_mem.mpr fun row member => absent ?_
      obtain ⟨⟨present, named, late⟩, binned⟩ := mem_slotRows.mp member
      refine (List.mem_insertionSort _).mpr (List.mem_dedup.mpr (List.mem_map.mpr ?_))
      exact ⟨row, List.mem_filter.mpr ⟨present, decide_eq_true ⟨named, late⟩⟩, binned⟩
    rw [empty]
    rfl

/-- `fill_series` asks for every slot of the window once. -/
theorem fillFrom_eq_slots {buckets : List (Int × ℚ)} {until' step : Int} (positive : 0 < step)
    (turns : ℕ) (t : Int) (enough : until' - t + 1 ≤ turns) :
    fillFrom buckets until' step turns t =
      (slots t until' step).map fun start => (buckets.lookup start).getD 0 := by
  induction turns generalizing t with
  | zero =>
    rw [slots_of_lt positive (by omega)]
    rfl
  | succ turns ih =>
    rw [fillFrom]
    split
    · rename_i before
      rw [slots_of_le positive before, List.map_cons, ih _ (by omega)]
    · rename_i after
      rw [slots_of_lt positive (by omega)]
      rfl

theorem series_eq (cfg : Config) (db : Tables) (entities : Finset String) (since now : Int) :
    series cfg db entities since now =
      (slots since (binFloor cfg.bin now) cfg.bin).map fun start =>
        mentions (slotRows cfg db entities since start) := by
  rw [series, fillSeries, fillFrom_eq_slots cfg.binPositive _ _ (Int.self_le_toNat _)]
  exact List.map_congr_left fun start _ => lookup_mentionSeries start

/-- The bin of a row is a slot when the row is from `since` on and before the end of the
last bin. -/
theorem dateBin_mem_slots (whole : 1000000 ∣ cfg.bin) (aligned : cfg.bin ∣ since) {ts : Int} :
    Tables.dateBin cfg.bin ts ∈ slots since (binFloor cfg.bin now) cfg.bin ↔
      since ≤ ts ∧ ts < binFloor cfg.bin now + cfg.bin := by
  rw [mem_slots_iff cfg.binPositive aligned]
  have start : since ≤ Tables.dateBin cfg.bin ts ↔ since ≤ ts :=
    le_binOf_iff cfg.binPositive aligned
  have stop : Tables.dateBin cfg.bin ts ≤ binFloor cfg.bin now ↔
      ts < binFloor cfg.bin now + cfg.bin :=
    binOf_le_iff cfg.binPositive (dvd_binFloor whole now)
  rw [start, stop]
  exact and_iff_right (dvd_binOf ts)

theorem sum_series (whole : 1000000 ∣ cfg.bin) (aligned : cfg.bin ∣ since) :
    (series cfg db entities since now).sum =
      mentions (db.entityTallies.filter fun row => row.entity ∈ entities ∧ since < row.bucketTs ∧
        row.bucketTs < binFloor cfg.bin now + cfg.bin) := by
  rw [series_eq]
  unfold mentions slotRows
  rw [sum_by_key (nodup_slots cfg.binPositive), List.filter_filter]
  congr 2
  refine List.filter_congr fun row _ => ?_
  simp only [dateBin_mem_slots whole aligned, ← Bool.decide_and]
  refine decide_eq_decide.mpr ?_
  constructor
  · rintro ⟨⟨_, stop⟩, named, late⟩
    exact ⟨named, late, stop⟩
  · rintro ⟨named, late, stop⟩
    exact ⟨⟨late.le, stop⟩, named, late⟩

theorem mentions_eq_zero_iff {rows : List TallyRow} :
    mentions rows = 0 ↔ ∀ row ∈ rows, row.mentions = 0 := by
  have counted : mentions rows = ((rows.map TallyRow.mentions).sum : ℕ) := by
    rw [mentions, Nat.cast_list_sum, List.map_map]
    rfl
  rw [counted, Nat.cast_eq_zero, List.sum_eq_zero_iff]
  simp

/-- With no row right at its start, the series adds the rows of the window and those
of the last bin after now. -/
theorem sum_series_split (whole : 1000000 ∣ cfg.bin) (aligned : cfg.bin ∣ since)
    (start : ∀ row ∈ db.entityTallies, row.entity ∈ entities → since ≤ now →
      row.bucketTs ≠ since) :
    (series cfg db entities since now).sum = mentions (windowRows db entities since now) +
      mentions (db.entityTallies.filter fun row => row.entity ∈ entities ∧ since < row.bucketTs ∧
        now < row.bucketTs ∧ row.bucketTs < binFloor cfg.bin now + cfg.bin) := by
  rw [sum_series whole aligned, mentions, mentions, mentions, windowRows, ← sum_filter_or]
  · congr 2
    refine List.filter_congr fun row member => decide_eq_decide.mpr ?_
    have stop := lt_binFloor_add whole now
    constructor
    · rintro ⟨named, late, before⟩
      rcases le_or_gt row.bucketTs now with inside | ahead
      · exact .inl ⟨named, late.le, inside⟩
      · exact .inr ⟨named, late, ahead, before⟩
    · rintro (⟨named, late, inside⟩ | ⟨named, late, _, before⟩)
      · have other := start row member named (late.trans inside)
        exact ⟨named, lt_of_le_of_ne late other.symm, inside.trans_lt stop⟩
      · exact ⟨named, late, before⟩
  · exact fun row _ inside ahead => absurd ahead.2.2.1 (not_lt.mpr inside.2.2)

end Counting

/-- For a bin of whole seconds, whatever earliest bucket was read, the series of a cycle is
that of its window exactly when no row of the Story lies right at the window's start and
none after now counts anything in the last bin. -/
theorem series_lossless_iff (cfg : Config) (whole : 1000000 ∣ cfg.bin) (db : Tables)
    (entities : Finset String) (now : Int) (earliest : Option Int) :
    Lossless cfg db entities (sinceOf cfg now earliest) now ↔
      Interior cfg db entities (sinceOf cfg now earliest) now := by
  have aligned := dvd_sinceOf whole now earliest
  generalize sinceOf cfg now earliest = since at aligned ⊢
  constructor
  · intro lossless
    have start : ∀ row ∈ db.entityTallies, row.entity ∈ entities → since ≤ now →
        row.bucketTs ≠ since := by
      intro row member named open' same
      have inside : row ∈ windowRows db entities since now :=
        mem_windowRows.mpr ⟨member, named, same.ge, same.trans_le open'⟩
      obtain ⟨_, counted⟩ := (lossless.counted row inside _).mpr rfl
      exact absurd (mem_slotRows.mp counted).1.2.2 (not_lt.mpr same.le)
    refine ⟨start, fun row member named late after before => ?_⟩
    have total := lossless.total
    rw [sum_series_split whole aligned start, add_eq_left, mentions_eq_zero_iff] at total
    exact total row (List.mem_filter.mpr ⟨member, decide_eq_true ⟨named, late, after, before⟩⟩)
  · rintro ⟨start, ahead⟩
    refine ⟨series_eq cfg db entities since now, nodup_slots cfg.binPositive, ?_, ?_,
      range_binFloor whole⟩
    · intro row inside bin
      obtain ⟨member, named, late, before⟩ := mem_windowRows.mp inside
      constructor
      · exact fun counted => (mem_slotRows.mp counted.2).2.symm
      · rintro rfl
        have other := start row member named (late.trans before)
        refine ⟨(dateBin_mem_slots whole aligned).mpr ⟨late, ?_⟩, mem_slotRows.mpr ⟨⟨member, named,
          lt_of_le_of_ne late other.symm⟩, rfl⟩⟩
        exact before.trans_lt (lt_binFloor_add whole now)
    · rw [sum_series_split whole aligned start, add_eq_left, mentions_eq_zero_iff]
      intro row member
      obtain ⟨present, facts⟩ := List.mem_filter.mp member
      obtain ⟨named, late, after, before⟩ := of_decide_eq_true facts
      exact ahead row present named late after before

/-- Two mentions right at the start of a bin, as the flushes of a minute are dated. -/
def minuteTallies : Tables where
  clock := 1200000000
  entityTallies := [⟨"kyiv", 300000000, "enrich-0", 2⟩]

/-- The bin of the earliest bucket starts with it, and the statement leaves it out. -/
theorem first_bucket_lost : ¬ Lossless {} minuteTallies {"kyiv"}
    (sinceOf {} 1200000000 (minuteTallies.earliestBucket 432000000000)) 1200000000 := by
  intro lossless
  have missed : (series {} minuteTallies {"kyiv"}
      (sinceOf {} 1200000000 (minuteTallies.earliestBucket 432000000000)) 1200000000).sum ≠
    mentions (windowRows minuteTallies {"kyiv"}
      (sinceOf {} 1200000000 (minuteTallies.earliestBucket 432000000000)) 1200000000) := by
    decide +kernel
  exact missed lossless.total

/-- A minute later the same tallies are counted. -/
theorem second_minute_lossless : Lossless {}
    { clock := 1200000000, entityTallies := [⟨"kyiv", 360000000, "enrich-0", 2⟩] } {"kyiv"}
    (sinceOf {} 1200000000 (some 360000000)) 1200000000 := by
  refine (series_lossless_iff {} (by decide) _ _ _ _).mpr ⟨?_, ?_⟩
  · simp only [List.forall_mem_singleton]
    decide +kernel
  · simp only [List.forall_mem_singleton]
    decide +kernel

end NewsAggregator.Score
