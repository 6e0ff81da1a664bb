import NewsAggregator.Api.Feed
import NewsAggregator.Score.Series

/-! The sparkline of a Story against the series its velocity is scored from: the bins
of the one add up bins of the other. -/

namespace NewsAggregator.Api

open Enrich Foundation Score

/-- `ReadDb.velocity_series`. -/
def velocitySeries (db : Tables) (entities : Finset String) (window binWidth : Int) :
    List (Int × ℚ) := db.mentionSeries entities (db.clock - window) binWidth

/-- The points of `story_velocity`; `none` for an unknown Story. -/
def storyVelocity (cfg : Config) (db : Tables) (storyId : Uuid) : Option (List (Int × ℚ)) :=
  (db.stories.find? fun row => row.id = storyId).map fun row =>
    velocitySeries db row.entitySet cfg.sparkWindow cfg.sparkBin

section Bins

variable {width start ts : Int}

/-- The bin of a time, by its bounds. -/
theorem binOf_eq_iff (positive : 0 < width) (aligned : width ∣ start) :
    binOf width ts = start ↔ start ≤ ts ∧ ts < start + width := by
  rw [← le_binOf_iff positive aligned, ← binOf_le_iff positive aligned, and_comm]
  exact le_antisymm_iff

/-- The fine bins of a coarse one cover the same times. -/
theorem binOf_mem_slots {coarse : Int} (positive : 0 < width) (multiple : width ∣ coarse)
    (aligned : coarse ∣ start) :
    binOf width ts ∈ slots start (start + coarse - width) width ↔
      start ≤ ts ∧ ts < start + coarse := by
  have fine := multiple.trans aligned
  rw [mem_slots_iff positive fine, le_binOf_iff positive fine,
    binOf_le_iff positive (dvd_sub (dvd_add fine multiple) (dvd_refl width)), sub_add_cancel]
  exact and_iff_right (dvd_binOf ts)

end Bins

/-- A point holds the mentions of the rows of its bin, and the bin is one of the grid. -/
theorem mem_velocitySeries {db : Tables} {entities : Finset String} {window binWidth : Int}
    {point : Int × ℚ} (member : point ∈ velocitySeries db entities window binWidth) :
    binWidth ∣ point.1 ∧ point.2 = mentions (db.entityTallies.filter fun row =>
      (row.entity ∈ entities ∧ db.clock - window < row.bucketTs) ∧
        binOf binWidth row.bucketTs = point.1) := by
  obtain ⟨bin, binned, rfl⟩ := List.mem_map.mp member
  obtain ⟨row, _, rfl⟩ := List.mem_map.mp (List.mem_dedup.mp ((List.mem_insertionSort _).mp binned))
  refine ⟨dvd_binOf row.bucketTs, ?_⟩
  dsimp only
  rw [List.filter_filter, mentions]
  congr 2
  refine List.filter_congr fun other _ => ?_
  rw [Bool.and_comm, ← Bool.decide_and]
  rfl

/-- What the scorer counts in the fine bins of a coarse one. -/
theorem sum_fine {scorer : Score.Config} {db : Tables} {entities : Finset String}
    {since start coarse : Int} (multiple : scorer.bin ∣ coarse) (aligned : coarse ∣ start) :
    ((slots start (start + coarse - scorer.bin) scorer.bin).map fun start =>
        ((db.mentionSeries entities since scorer.bin).lookup start).getD 0).sum =
      mentions (db.entityTallies.filter fun row =>
        (row.entity ∈ entities ∧ since < row.bucketTs) ∧
          start ≤ row.bucketTs ∧ row.bucketTs < start + coarse) := by
  have each : (slots start (start + coarse - scorer.bin) scorer.bin).map (fun start =>
      ((db.mentionSeries entities since scorer.bin).lookup start).getD 0) =
      (slots start (start + coarse - scorer.bin) scorer.bin).map fun start =>
        mentions (slotRows scorer db entities since start) :=
    List.map_congr_left fun start _ => lookup_mentionSeries start
  rw [each]
  unfold mentions slotRows
  rw [sum_by_key (nodup_slots scorer.binPositive), List.filter_filter]
  congr 2
  refine List.filter_congr fun row _ => ?_
  have inside : Tables.dateBin scorer.bin row.bucketTs ∈
        slots start (start + coarse - scorer.bin) scorer.bin ↔
      start ≤ row.bucketTs ∧ row.bucketTs < start + coarse :=
    binOf_mem_slots scorer.binPositive multiple aligned
  simp only [inside, ← Bool.decide_and, and_comm]

/-- Two mentions in different fine bins of one point. -/
def twoBins : Tables where
  clock := 86400000000
  stories := [{ id := 7, firstSeen := 0, lastSeen := 0, entitySet := {"kyiv"}, sourceSet := ∅
                independentOrigins := 1, centroid := none }]
  entityTallies := [⟨"kyiv", 900000000, "enrich-0", 2⟩, ⟨"kyiv", 1260000000, "enrich-0", 3⟩]

end NewsAggregator.Api
