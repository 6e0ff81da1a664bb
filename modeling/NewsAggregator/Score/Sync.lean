import Mathlib.Algebra.Order.Group.Unbundled.Int
import Mathlib.Data.Multiset.Basic
import Mathlib.Data.Multiset.Count
import NewsAggregator.Foundation.Neighbors
import NewsAggregator.Score.Db

/-! The count of synchronized items against its definition over all pairs. -/

namespace NewsAggregator.Score

open Foundation Neighbors

/-- `ts_observed` of a row. -/
def observed (row : ItemRow) : Int := row.item.tsObserved.instant

/-- One of the other times is within the window. -/
def Within (window : Int) (others : Multiset Int) (ts : Int) : Prop :=
  ∃ other ∈ others, |ts - other| ≤ window

instance Within.decidable (window : Int) (others : Multiset Int) (ts : Int) :
    Decidable (Within window others ts) :=
  Multiset.decidableExistsMultiset

/-- Items observed within the window of another item of the multiset. -/
def syncedWithin (window : Int) (times : Multiset Int) : ℕ :=
  times.countP fun ts => Within window (times.erase ts) ts

/-- The times of a Story's social items. -/
def socialTimes (db : Tables) (storyId : Uuid) : Multiset Int :=
  ((db.storyItems storyId .social).map observed : List Int)

/-- The later time is within the window of the earlier one. -/
def Follows (window earlier later : Int) : Prop := later - earlier ≤ window

instance Follows.decidable (window : Int) : DecidableRel (Follows window) :=
  fun earlier later => inferInstanceAs (Decidable (later - earlier ≤ window))

theorem follows_narrowing (window : Int) : Narrowing (Follows window) := by
  intro first mid last lower upper near
  unfold Follows at near ⊢
  constructor <;> omega

theorem accompanied_iff_within {window ts : Int} {others : List Int} :
    Accompanied (Follows window) others ts ↔ Within window others ts := by
  simp only [Accompanied, Follows, Within, max_sub_min_eq_abs', Multiset.mem_coe]

theorem synced_eq_companions (window : Int) (prev : Option Int) (times : List Int) :
    Tables.synced window prev times = companions (Follows window) prev times := by
  induction times generalizing prev with
  | nil => rfl
  | cons ts rest ih =>
    rw [Tables.synced, companions, ih]
    rfl

/-- The neighbours of any sorted arrangement suffice. -/
theorem synced_eq_syncedWithin (window : Int) {times : List Int}
    (sorted : times.Pairwise (· ≤ ·)) :
    Tables.synced window none times = syncedWithin window times := by
  rw [synced_eq_companions, companions_eq_countP (follows_narrowing window) sorted, syncedWithin,
    Multiset.coe_countP]
  apply List.countP_congr
  intro ts _
  rw [decide_eq_true_eq, decide_eq_true_eq, accompanied_iff_within, Multiset.coe_erase]

theorem inauthSync_eq (db : Tables) (storyId : Uuid) (window : Int) :
    db.inauthSync storyId window =
      (Multiset.card (socialTimes db storyId), syncedWithin window (socialTimes db storyId)) := by
  have same : (((db.storyItems storyId .social).map observed).insertionSort (· ≤ ·) :
      Multiset Int) = socialTimes db storyId :=
    Multiset.coe_eq_coe.mpr (List.perm_insertionSort _ _)
  have counted := synced_eq_syncedWithin window (List.pairwise_insertionSort (· ≤ ·)
    ((db.storyItems storyId .social).map observed))
  rw [same] at counted
  rw [← counted, socialTimes, Multiset.coe_card]
  rfl

/-- Whichever way ties are ordered, the statement counts the items with another
social item of the Story within the window. -/
theorem sync_counts_pairs (db : Tables) (storyId : Uuid) (window : Int) (arranged : List ItemRow)
    (permuted : arranged.Perm (db.storyItems storyId .social))
    (ordered : arranged.Pairwise fun first second => observed first ≤ observed second) :
    Tables.synced window none (arranged.map observed) =
        syncedWithin window (socialTimes db storyId) ∧
      db.inauthSync storyId window =
        (Multiset.card (socialTimes db storyId), syncedWithin window (socialTimes db storyId)) := by
  refine ⟨?_, inauthSync_eq db storyId window⟩
  have same : (arranged.map observed : Multiset Int) = socialTimes db storyId :=
    Multiset.coe_eq_coe.mpr (permuted.map observed)
  have sorted : (arranged.map observed).Pairwise (· ≤ ·) := List.pairwise_map.mpr ordered
  rw [synced_eq_syncedWithin window sorted, same]

/-- A post of the Story `1`. -/
def post (id : Uuid) (authorRef : String) (ts : Int) : ItemRow where
  item := { id, source := "mastodon", sourceClass := .social, tsObserved := ⟨ts, 0⟩,
            text := "the bridge is closed", authorRef }
  embedding := none
  storyId := some 1

/-- Two posts at the same time and one much later. -/
def tiedPosts : Tables where
  clock := 100
  items := [post 1 "a" 5, post 2 "b" 5, post 3 "c" 90]

theorem sync_counts_tied :
    Tables.synced 10 none ([post 2 "b" 5, post 1 "a" 5, post 3 "c" 90].map observed) =
        syncedWithin 10 (socialTimes tiedPosts 1) ∧
      tiedPosts.inauthSync 1 10 =
        (Multiset.card (socialTimes tiedPosts 1), syncedWithin 10 (socialTimes tiedPosts 1)) := by
  apply sync_counts_pairs
  · exact List.Perm.swap _ _ _
  · decide

example : tiedPosts.inauthSync 1 10 = (3, 2) := by decide

end NewsAggregator.Score
