import Mathlib.Algebra.Order.Floor.Semiring
import Mathlib.Data.Rat.Floor
import NewsAggregator.Foundation.Limit
import NewsAggregator.Retrain.Evalx
import NewsAggregator.Score.Db

/-! The weak labels of the view, the newest of them a cycle reads, and the split of
what it read at a point in time. -/

namespace NewsAggregator.Retrain

open Foundation Score

structure LabeledRow where
  tsObserved : Int
  text : String
  label : ℤ
  deriving DecidableEq

/-- The two tables under the view. -/
structure LabelTables where
  items : List ItemRow := []
  stories : List ScoredStory := []

/-- The `CASE` of `weak_labels`; without a Story its columns are null. -/
def weakLabel (row : ItemRow) (story : Option ScoredStory) : Option ℤ :=
  if (story.any fun s => hundredths 70 ≤ s.inauthenticity) ∧ row.item.sourceClass = .social then
    some 0
  else if story.any fun s => s.trustState = .corroborated ∨ s.trustState = .primaryBacked then
    some 1
  else if row.exploration then some 0
  else none

/-- The stories of an item: `LEFT JOIN`. -/
def LabelTables.joined (db : LabelTables) (row : ItemRow) : List (Option ScoredStory) :=
  let found := db.stories.filter fun story => row.storyId = some story.id
  if found.isEmpty then [none] else found.map some

/-- The labelled rows of `weak_labels`. -/
def LabelTables.labeled (db : LabelTables) : List LabeledRow :=
  db.items.flatMap fun row => (db.joined row).filterMap fun story =>
    (weakLabel row story).map (⟨row.item.tsObserved.instant, row.item.text, ·⟩)

def LabelTables.fetchLabels (db : LabelTables) (limit : ℕ) : List LabeledRow :=
  (db.labeled.insertionSort fun first second => second.tsObserved ≤ first.tsObserved).take limit

theorem top_fetchLabels (db : LabelTables) (limit : ℕ) :
    Top LabeledRow.tsObserved limit db.labeled (db.fetchLabels limit) := top_take _ _ _

def classCounts (rows : List LabeledRow) : Counter ℤ :=
  Counter.empty.addAll (rows.map LabeledRow.label)

theorem count_classCounts (rows : List LabeledRow) (cls : ℤ) :
    (classCounts rows).count cls = rows.countP fun row => row.label = cls := by
  rw [classCounts, Counter.count_addAll, Counter.count_empty, Nat.zero_add, List.count,
    List.countP_map]
  congr 1

/-- `round` of a float: to the nearest integer, a tie to the even one. -/
def roundHalfEven (x : ℚ) : ℤ :=
  if x - ⌊x⌋ < 1 / 2 then ⌊x⌋
  else if 1 / 2 < x - ⌊x⌋ then ⌊x⌋ + 1
  else if ⌊x⌋ % 2 = 0 then ⌊x⌋ else ⌊x⌋ + 1

/-- How many rows `time_split` holds out. -/
def heldOut (fl : Rounding ℚ) (evalFrac : ℚ) (n : ℕ) : ℕ :=
  if 2 ≤ n then (min ((n : ℤ) - 1) (max 1 (roundHalfEven (fl.round (n * evalFrac))))).toNat else 0

def timeSplit (fl : Rounding ℚ) (evalFrac : ℚ) (rows : List LabeledRow) :
    List LabeledRow × List LabeledRow :=
  let ordered := rows.insertionSort fun first second => first.tsObserved ≤ second.tsObserved
  let cut := ordered.length - heldOut fl evalFrac ordered.length
  (ordered.take cut, ordered.drop cut)

/-- The rows fall into two parts, none of them empty from two rows on, and no row to
train on is later than a row to score on. -/
structure SplitInTime (rows train held : List LabeledRow) : Prop where
  parts : (train ++ held).Perm rows
  both : 2 ≤ rows.length → train ≠ [] ∧ held ≠ []
  ordered : ∀ first ∈ train, ∀ second ∈ held, first.tsObserved ≤ second.tsObserved

section Split

variable {fl : Rounding ℚ} {evalFrac : ℚ}

/-- Whatever the fraction, both parts get a row. -/
theorem heldOut_bounds {n : ℕ} (several : 2 ≤ n) :
    1 ≤ heldOut fl evalFrac n ∧ heldOut fl evalFrac n < n := by
  rw [heldOut, if_pos several]
  omega

theorem timeSplit_splits (rows : List LabeledRow) :
    SplitInTime rows (timeSplit fl evalFrac rows).1 (timeSplit fl evalFrac rows).2 := by
  have transitive : IsTrans LabeledRow fun first second => first.tsObserved ≤ second.tsObserved :=
    ⟨fun _ _ _ => le_trans⟩
  have total : Std.Total fun first second : LabeledRow => first.tsObserved ≤ second.tsObserved :=
    ⟨fun _ _ => le_total _ _⟩
  have order := List.perm_insertionSort
    (fun first second : LabeledRow => first.tsObserved ≤ second.tsObserved) rows
  have ordered := List.pairwise_insertionSort
    (fun first second : LabeledRow => first.tsObserved ≤ second.tsObserved) rows
  simp only [timeSplit]
  generalize rows.insertionSort (fun first second => first.tsObserved ≤ second.tsObserved) = sorted
    at order ordered
  generalize fits : sorted.length - heldOut fl evalFrac sorted.length = cut
  refine ⟨by rwa [List.take_append_drop], fun several => ?_, ?_⟩
  · rw [← order.length_eq] at several
    have bounds : 1 ≤ heldOut fl evalFrac sorted.length ∧
        heldOut fl evalFrac sorted.length < sorted.length := heldOut_bounds several
    constructor
    · intro none
      have short := congrArg List.length none
      rw [List.length_take, List.length_nil] at short
      omega
    · intro none
      have short := congrArg List.length none
      rw [List.length_drop, List.length_nil] at short
      omega
  · rw [← List.take_append_drop cut sorted] at ordered
    exact (List.pairwise_append.mp ordered).2.2

end Split

/-- What the floors of the gate ask of the rows. -/
theorem meetsFloors_iff {floors : Floors} {rows : List LabeledRow} :
    (meetsFloors floors rows.length (classCounts rows)).1 = true ↔ floors.minRows ≤ rows.length ∧
      ∀ cls ∈ ([0, 1] : List ℤ), floors.minPerClass ≤ rows.countP fun row => row.label = cls := by
  rw [meetsFloors]
  split
  · rename_i few
    simp only [Bool.false_eq_true, false_iff]
    omega
  · rename_i enough
    split
    · rename_i cls found
      have short := List.find?_some found
      rw [decide_eq_true_eq, count_classCounts] at short
      simp only [Bool.false_eq_true, false_iff]
      rintro ⟨_, each⟩
      exact absurd (each cls (List.mem_of_find?_eq_some found)) (by omega)
    · rename_i absent
      simp only [true_iff]
      refine ⟨by omega, fun cls member => ?_⟩
      have enough := List.find?_eq_none.mp absent cls member
      rw [decide_eq_true_eq, count_classCounts] at enough
      omega

end NewsAggregator.Retrain
