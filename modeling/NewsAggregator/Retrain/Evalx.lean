import Mathlib.Algebra.Field.Rat
import Mathlib.Algebra.Order.Ring.Unbundled.Rat
import Mathlib.Tactic.FieldSimp
import Mathlib.Tactic.Positivity
import NewsAggregator.Foundation.Counter
import NewsAggregator.Foundation.Rounding
import NewsAggregator.Python

/-! The eval harness of the retrain loop: F1 of a model on the eval slice, and the
gate a candidate has to pass. A score is only ever compared with the threshold; a
quotient is rounded as the arithmetic in use rounds it. -/

namespace NewsAggregator.Retrain

open Foundation

variable {K S : Type} [Field K] [LinearOrder K] [LinearOrder S]

/-- What `f1_metrics` counts. -/
structure Confusion where
  tp : ℕ := 0
  fp : ℕ := 0
  fn : ℕ := 0

structure Metrics (K : Type) where
  precision : K
  recallRate : K
  f1 : K
  n : ℕ

/-- The class a score stands for. -/
def predict (threshold score : S) : ℤ := if threshold ≤ score then 1 else 0

/-- One turn of the loop of `f1_metrics`. -/
def countRow (threshold : S) (counts : Confusion) (row : S × ℤ) : Confusion :=
  let (s, y) := row
  let pred := predict threshold s
  if pred = 1 ∧ y = 1 then { counts with tp := counts.tp + 1 }
  else if pred = 1 ∧ y = 0 then { counts with fp := counts.fp + 1 }
  else if pred = 0 ∧ y = 1 then { counts with fn := counts.fn + 1 }
  else counts

def Confusion.metrics (fl : Rounding K) (counts : Confusion) (n : ℕ) : Metrics K :=
  let precision := if counts.tp + counts.fp = 0 then 0
    else fl.round (counts.tp / (counts.tp + counts.fp : ℕ))
  let recallRate := if counts.tp + counts.fn = 0 then 0
    else fl.round (counts.tp / (counts.tp + counts.fn : ℕ))
  let f1 := if fl.round (precision + recallRate) = 0 then 0
    else
      fl.round (fl.round (fl.round ((2 : ℕ) * precision) * recallRate) /
        fl.round (precision + recallRate))
  { precision, recallRate, f1, n }

/-- `f1_metrics`; `none` where `zip` finds lists of different length. -/
def f1Metrics (fl : Rounding K) (threshold : S) (scores : List S) (labels : List ℤ) :
    Option (Metrics K) :=
  if scores.length ≠ labels.length then none
  else some (((scores.zip labels).foldl (countRow threshold) {}).metrics fl labels.length)

/-- The settings of the gate. -/
structure Floors where
  minRows : ℕ := 200
  minPerClass : ℕ := 30

def meetsFloors (floors : Floors) (nLabeled : ℕ) (counts : Counter ℤ) : Bool × String :=
  if nLabeled < floors.minRows then
    (false, s!"too few labeled rows ({nLabeled} < {floors.minRows})")
  else
    match ([0, 1] : List ℤ).find? fun cls => counts.count cls < floors.minPerClass with
    | some cls => (false, s!"class {cls} underpopulated ({counts.count cls} < {floors.minPerClass})")
    | none => (true, "floors met")

/-- `should_promote`; `fixed3` is the format `.3f`. -/
def shouldPromote (floors : Floors) (fixed3 : K → String) (candidateF1 : K) (currentF1 : Option K)
    (nLabeled : ℕ) (counts : Counter ℤ) : Bool × String :=
  let (ok, reason) := meetsFloors floors nLabeled counts
  if !ok then (false, reason)
  else
    match currentF1 with
    | some current =>
      if candidateF1 < current then
        (false, s!"candidate F1 {fixed3 candidateF1} < current {fixed3 current}")
      else (true, s!"promote (F1 {fixed3 candidateF1} ≥ {fixed3 current})")
    | none => (true, s!"promote (F1 {fixed3 candidateF1} ≥ {fixed3 0})")

/-- The gate passes a candidate that does not regress, once the floors are met. -/
theorem shouldPromote_iff {floors : Floors} {fixed3 : K → String} {candidateF1 current : K}
    {nLabeled : ℕ} {counts : Counter ℤ} :
    (shouldPromote floors fixed3 candidateF1 (some current) nLabeled counts).1 = true ↔
      (meetsFloors floors nLabeled counts).1 = true ∧ current ≤ candidateF1 := by
  rw [shouldPromote]
  obtain ⟨ok, reason⟩ := meetsFloors floors nLabeled counts
  cases ok with
  | false => simp
  | true =>
    by_cases lower : candidateF1 < current
    · simp [lower]
    · simp [lower, not_lt.mp lower]

/-- A row of the eval slice with the scores two models give it. -/
structure EvalRow (S : Type) where
  label : ℤ
  incumbent : S
  candidate : S

/-- At the threshold the candidate gets every row wrong that the incumbent gets
wrong, and one more. -/
def Dominated (threshold : S) (slice : List (EvalRow S)) : Prop :=
  (∀ row ∈ slice, predict threshold row.incumbent ≠ row.label →
      predict threshold row.candidate ≠ row.label) ∧
    ∃ row ∈ slice, predict threshold row.incumbent = row.label ∧
      predict threshold row.candidate ≠ row.label

instance (threshold : S) (slice : List (EvalRow S)) : Decidable (Dominated threshold slice) :=
  inferInstanceAs (Decidable (_ ∧ _))

/-- The incumbent finds none of the positives of the slice. -/
def Blank (threshold : S) (slice : List (EvalRow S)) : Prop :=
  ∀ row ∈ slice, ¬ (threshold ≤ row.incumbent ∧ row.label = 1)

section Counts

variable {threshold : S} {slice : List (EvalRow S)}

/-- The counts are those of the rows of each kind. -/
theorem foldl_countRow (threshold : S) (rows : List (S × ℤ)) (counts : Confusion) :
    rows.foldl (countRow threshold) counts =
      { tp := counts.tp + rows.countP fun row => predict threshold row.1 = 1 ∧ row.2 = 1
        fp := counts.fp + rows.countP fun row => predict threshold row.1 = 1 ∧ row.2 = 0
        fn := counts.fn + rows.countP fun row => predict threshold row.1 = 0 ∧ row.2 = 1 } := by
  induction rows generalizing counts with
  | nil => rfl
  | cons row rest ih =>
    rw [List.foldl_cons, ih]
    simp only [List.countP_cons, countRow]
    by_cases positive : predict threshold row.1 = 1 <;> by_cases one : row.2 = 1 <;>
      by_cases zero : row.2 = 0 <;> by_cases negative : predict threshold row.1 = 0 <;>
      simp_all <;> omega

/-- The counts of one of the two models. -/
def confusionOf (threshold : S) (score : EvalRow S → S) (slice : List (EvalRow S)) : Confusion where
  tp := slice.countP fun row => predict threshold (score row) = 1 ∧ row.label = 1
  fp := slice.countP fun row => predict threshold (score row) = 1 ∧ row.label = 0
  fn := slice.countP fun row => predict threshold (score row) = 0 ∧ row.label = 1

theorem f1Metrics_slice (fl : Rounding K) (score : EvalRow S → S) :
    f1Metrics fl threshold (slice.map score) (slice.map EvalRow.label) =
      some ((confusionOf threshold score slice).metrics fl slice.length) := by
  have zipped : (slice.map score).zip (slice.map EvalRow.label) =
      slice.map fun row => (score row, row.label) := by
    rw [List.zip_map']
  simp only [f1Metrics, List.length_map, ne_eq, not_true_eq_false, if_false, zipped,
    foldl_countRow, List.countP_map, confusionOf, zero_add]
  rfl

theorem predict_eq (threshold score : S) :
    predict threshold score = 1 ∨ predict threshold score = 0 := by
  rw [predict]
  split
  · exact .inl rfl
  · exact .inr rfl

theorem confusionOf_le (score : EvalRow S → S) :
    (confusionOf threshold score slice).tp + (confusionOf threshold score slice).fp +
      (confusionOf threshold score slice).fn ≤ slice.length := by
  simp only [confusionOf]
  induction slice with
  | nil => simp
  | cons row rest ih =>
    simp only [List.countP_cons, List.length_cons]
    rcases predict_eq threshold (score row) with positive | negative
    · by_cases one : row.label = 1
      · simp_all
        omega
      · by_cases zero : row.label = 0 <;> simp_all <;> omega
    · by_cases one : row.label = 1 <;> simp_all <;> omega

/-- The errors of a model are the rows it gets wrong. -/
theorem errors_eq (score : EvalRow S → S)
    (binary : ∀ row ∈ slice, row.label = 0 ∨ row.label = 1) :
    (confusionOf threshold score slice).fp + (confusionOf threshold score slice).fn =
      slice.countP fun row => predict threshold (score row) ≠ row.label := by
  simp only [confusionOf]
  induction slice with
  | nil => rfl
  | cons row rest ih =>
    have rest := ih fun other member => binary other (List.mem_cons_of_mem row member)
    have own := binary row List.mem_cons_self
    simp only [List.countP_cons, ← rest]
    rcases predict_eq threshold (score row) with positive | negative <;>
      rcases own with zero | one <;> simp [*] <;> omega

private theorem countP_lt {α : Type} {p q : α → Bool} {l : List α} {a : α}
    (weaker : ∀ x ∈ l, p x → q x) (member : a ∈ l) (new : q a) (old : ¬ p a) :
    l.countP p < l.countP q := by
  obtain ⟨before, after, rfl⟩ := List.append_of_mem member
  have left := List.countP_mono_left fun x here =>
    weaker x (List.mem_append_left _ here)
  have right := List.countP_mono_left fun x here =>
    weaker x (List.mem_append_right _ (List.mem_cons_of_mem a here))
  rw [List.countP_append, List.countP_append, List.countP_cons_of_neg old,
    List.countP_cons_of_pos new]
  omega

theorem blank_iff :
    Blank threshold slice ↔ (confusionOf threshold EvalRow.incumbent slice).tp = 0 := by
  simp [Blank, confusionOf, List.countP_eq_zero, predict]

/-- A dominated candidate has no more true positives, and more errors in all. -/
theorem Dominated.confusion (binary : ∀ row ∈ slice, row.label = 0 ∨ row.label = 1)
    (dominated : Dominated threshold slice) :
    (confusionOf threshold EvalRow.candidate slice).tp ≤
        (confusionOf threshold EvalRow.incumbent slice).tp ∧
      (confusionOf threshold EvalRow.incumbent slice).fp +
          (confusionOf threshold EvalRow.incumbent slice).fn <
        (confusionOf threshold EvalRow.candidate slice).fp +
          (confusionOf threshold EvalRow.candidate slice).fn := by
  obtain ⟨worse, row, member, right, wrong⟩ := dominated
  constructor
  · apply List.countP_mono_left
    intro row member hit
    obtain ⟨positive, one⟩ := of_decide_eq_true hit
    have correct : predict threshold row.incumbent = row.label := by
      by_contra missed
      exact worse row member missed (positive.trans one.symm)
    exact decide_eq_true ⟨correct.trans one, one⟩
  · rw [errors_eq _ binary, errors_eq _ binary]
    refine countP_lt (fun row member missed => ?_) member (decide_eq_true wrong) (by simp [right])
    exact decide_eq_true (worse row member (of_decide_eq_true missed))

end Counts

section F1

variable {K : Type} [Field K] [LinearOrder K] [IsStrictOrderedRing K] {fl : Rounding K}
  {counts : Confusion} {n : ℕ}

/-- F1 in exact arithmetic. -/
def Confusion.exactF1 (counts : Confusion) : K :=
  (2 : ℕ) * counts.tp / ((2 : ℕ) * counts.tp + counts.fp + counts.fn)

omit [LinearOrder K] [IsStrictOrderedRing K] in
theorem exactF1_eq : (counts.exactF1 : K) =
    2 * counts.tp / (2 * counts.tp + counts.fp + counts.fn) := by
  rw [Confusion.exactF1, Nat.cast_ofNat]

theorem f1_of_no_hits (none : counts.tp = 0) : (counts.metrics fl n).f1 = 0 := by
  simp [Confusion.metrics, none]

/-- Seven roundings separate the computed F1 from the exact one. -/
theorem near_f1 (some : 0 < counts.tp) :
    fl.Near 7 counts.exactF1 (counts.metrics fl n).f1 := by
  have hits : (0 : K) < counts.tp := Nat.cast_pos.mpr some
  have quotient (others : ℕ) : fl.Near 1 (counts.tp / (counts.tp + others : ℕ) : K)
      (fl.round (counts.tp / (counts.tp + others : ℕ))) :=
    (Rounding.near_self (div_pos hits (Nat.cast_pos.mpr (by omega)))).round
  have precision := quotient counts.fp
  have recallRate := quotient counts.fn
  have double := ((Rounding.near_self (r := fl) two_pos).mul precision).round
  have numerator := (double.mul recallRate).round
  have denominator := (precision.add recallRate).round
  have result := (numerator.div denominator).round
  have same : counts.exactF1 = 2 * (counts.tp / (counts.tp + counts.fp : ℕ) : K) *
      (counts.tp / (counts.tp + counts.fn : ℕ)) / (counts.tp / (counts.tp + counts.fp : ℕ) +
        counts.tp / (counts.tp + counts.fn : ℕ)) := by
    have fpNonneg : (0 : K) ≤ counts.fp := Nat.cast_nonneg _
    have fnNonneg : (0 : K) ≤ counts.fn := Nat.cast_nonneg _
    rw [exactF1_eq]
    push_cast
    field_simp
    ring
  rw [same]
  have noHits : counts.tp ≠ 0 := some.ne'
  have nonzero := denominator.pos.ne'
  simp only [Nat.cast_add] at nonzero
  simpa [Confusion.metrics, noHits, nonzero] using result

/-- Fewer hits and more errors leave a gap that depends on the number of rows. -/
theorem exactF1_gap {worse : Confusion} {rows : ℕ} (some : 0 < counts.tp)
    (hits : worse.tp ≤ counts.tp) (errors : counts.fp + counts.fn < worse.fp + worse.fn)
    (bound : counts.tp + counts.fp + counts.fn ≤ rows) :
    (worse.exactF1 : K) ≤ (1 - 1 / (2 * rows + 1)) * counts.exactF1 := by
  have hitsPos : (0 : K) < counts.tp := Nat.cast_pos.mpr some
  have size : (2 * counts.tp + counts.fp + counts.fn : K) ≤ 2 * rows := by
    exact_mod_cast (by omega : 2 * counts.tp + counts.fp + counts.fn ≤ 2 * rows)
  have total : (0 : K) < 2 * counts.tp + counts.fp + counts.fn := by positivity
  have next : (worse.exactF1 : K) ≤
      2 * counts.tp / (2 * counts.tp + counts.fp + counts.fn + 1) := by
    have cross : worse.tp * (2 * counts.tp + counts.fp + counts.fn + 1) ≤
        counts.tp * (2 * worse.tp + worse.fp + worse.fn) := by
      have fewer := Nat.mul_le_mul hits errors
      rw [Nat.succ_eq_add_one] at fewer
      nlinarith
    have more : (0 : K) < 2 * worse.tp + worse.fp + worse.fn := by
      exact_mod_cast (by omega : 0 < 2 * worse.tp + worse.fp + worse.fn)
    rw [exactF1_eq, div_le_div_iff₀ more (by positivity)]
    have cross' : (worse.tp * (2 * counts.tp + counts.fp + counts.fn + 1) : K) ≤
        counts.tp * (2 * worse.tp + worse.fp + worse.fn) := by exact_mod_cast cross
    linarith
  have factor : (1 - 1 / (2 * counts.tp + counts.fp + counts.fn + 1) : K) ≤
      1 - 1 / (2 * rows + 1) :=
    sub_le_sub_left (one_div_le_one_div_of_le (by linarith) (by linarith)) 1
  calc (worse.exactF1 : K) ≤ 2 * counts.tp / (2 * counts.tp + counts.fp + counts.fn + 1) := next
    _ = (1 - 1 / (2 * counts.tp + counts.fp + counts.fn + 1)) * counts.exactF1 := by
      rw [exactF1_eq]
      field_simp
      ring
    _ ≤ (1 - 1 / (2 * rows + 1)) * counts.exactF1 :=
      mul_le_mul_of_nonneg_right factor (div_nonneg (by positivity) total.le)

/-- The gate passes a dominated candidate exactly when the floors are met and the
incumbent has no true positive, where both F1 are zero and tie. -/
theorem shouldPromote_dominated_iff (fl : Rounding K) (threshold : S) (floors : Floors)
    (fixed3 : K → String) (slice : List (EvalRow S)) (nLabeled : ℕ) (counts : Counter ℤ)
    (binary : ∀ row ∈ slice, row.label = 0 ∨ row.label = 1)
    (precise : 14 * fl.unit * (2 * slice.length + 1) < 1)
    (dominated : Dominated threshold slice) :
    ∃ incumbent candidate : Metrics K,
      f1Metrics fl threshold (slice.map EvalRow.incumbent) (slice.map EvalRow.label) =
          some incumbent ∧
        f1Metrics fl threshold (slice.map EvalRow.candidate) (slice.map EvalRow.label) =
          some candidate ∧
        ((shouldPromote floors fixed3 candidate.f1 (some incumbent.f1) nLabeled counts).1 = true ↔
          (meetsFloors floors nLabeled counts).1 = true ∧ Blank threshold slice) := by
  refine ⟨_, _, f1Metrics_slice fl EvalRow.incumbent, f1Metrics_slice fl EvalRow.candidate, ?_⟩
  obtain ⟨hits, errors⟩ := dominated.confusion binary
  rw [shouldPromote_iff, blank_iff]
  apply and_congr_right
  intro _
  constructor
  · intro regressed
    by_contra found
    have some := Nat.pos_of_ne_zero found
    have better : fl.Near 7 (confusionOf threshold EvalRow.incumbent slice).exactF1
        ((confusionOf threshold EvalRow.incumbent slice).metrics fl slice.length).f1 :=
      near_f1 some
    rcases Nat.eq_zero_or_pos (confusionOf threshold EvalRow.candidate slice).tp with none | any
    · rw [f1_of_no_hits none] at regressed
      exact absurd regressed (not_le.mpr better.pos)
    · have gap := exactF1_gap (K := K) some hits errors (confusionOf_le EvalRow.incumbent)
      have small : 2 * (7 : ℕ) * fl.unit < 1 / (2 * slice.length + 1) := by
        rw [lt_div_iff₀ (by positivity)]
        push_cast
        linarith
      exact absurd regressed (not_le.mpr ((near_f1 any).lt_of_gap better gap small))
  · intro none
    rw [f1_of_no_hits none, f1_of_no_hits (Nat.le_zero.mp (none ▸ hits))]

end F1

/-- One row of each class; the candidate loses the negative one. -/
def lostNegative : List (EvalRow ℚ) := [⟨1, 1, 1⟩, ⟨0, 0, 1⟩]

/-- The classes of a window that meets the floors. -/
def balanced : Counter ℤ where
  entries := [(0, 170), (1, 30)]
  distinct := by decide
  positive := by decide

theorem lostNegative_refused :
    ∃ incumbent candidate : Metrics ℚ,
      f1Metrics Rounding.exact (1 / 2) (lostNegative.map EvalRow.incumbent)
          (lostNegative.map EvalRow.label) = some incumbent ∧
        f1Metrics Rounding.exact (1 / 2) (lostNegative.map EvalRow.candidate)
          (lostNegative.map EvalRow.label) = some candidate ∧
        ((shouldPromote {} toString candidate.f1 (some incumbent.f1) 200 balanced).1 = true ↔
          (meetsFloors {} 200 balanced).1 = true ∧ Blank (1 / 2) lostNegative) :=
  shouldPromote_dominated_iff Rounding.exact (1 / 2) {} toString lostNegative 200 balanced
    (by decide) (by norm_num [Rounding.exact]) (by decide +kernel)

/-- A slice without positives: the incumbent is right, the candidate is wrong. -/
def noPositives : List (EvalRow ℚ) := [⟨0, 0, 1⟩]

/-- The gate ships the model that gets every row wrong. -/
theorem dominated_promoted :
    Dominated (1 / 2) noPositives ∧
      ∃ incumbent candidate : Metrics ℚ,
        f1Metrics Rounding.exact (1 / 2) (noPositives.map EvalRow.incumbent)
            (noPositives.map EvalRow.label) = some incumbent ∧
          f1Metrics Rounding.exact (1 / 2) (noPositives.map EvalRow.candidate)
            (noPositives.map EvalRow.label) = some candidate ∧
          (shouldPromote {} toString candidate.f1 (some incumbent.f1) 200 balanced).1 = true := by
  refine ⟨by decide +kernel, _, _, f1Metrics_slice _ _, f1Metrics_slice _ _, ?_⟩
  refine shouldPromote_iff.mpr ⟨by decide, ?_⟩
  rw [f1_of_no_hits (by decide +kernel), f1_of_no_hits (by decide +kernel)]

end NewsAggregator.Retrain
