import Mathlib.Algebra.BigOperators.Group.List.Basic
import Mathlib.Algebra.Order.Field.Basic
import Mathlib.Algebra.Order.Group.Abs
import Mathlib.Tactic.Linarith
import Mathlib.Tactic.Ring
import NewsAggregator.Python

/-! The gap score: the z-score of mention acceleration over the baseline before it,
weighed by trust. -/

namespace NewsAggregator.Score

variable {K : Type} [Field K] [LinearOrder K]

def minBuckets : ℕ := 12
def flatBaselineZ : K := 10
def eps : K := 1 / (1000000000 : ℕ)

/-- The turns of `ewma` after the first. -/
def ewmaFrom (alpha : K) : K → List K → List K
  | _, [] => []
  | prev, x :: rest =>
    let next := alpha * x + (1 - alpha) * prev
    next :: ewmaFrom alpha next rest

def ewma (alpha : K) : List K → List K
  | [] => []
  | x :: rest => x :: ewmaFrom alpha x rest

/-- The second differences of a series. -/
def accelerations : List K → List K
  | s0 :: s1 :: s2 :: rest => (s2 - 2 * s1 + s0) :: accelerations (s1 :: s2 :: rest)
  | _ => []

def accel (alpha : K) (series : List K) : List K := accelerations (ewma alpha series)

def baseline (alpha : K) (series : List K) : List K := (accel alpha series).dropLast

def latest (alpha : K) (series : List K) : K := (accel alpha series).getLastD 0

def mean (values : List K) : K := values.sum / values.length

/-- The deviation of a population; `sqrt` is that of `math`. -/
def pstdev (sqrt : K → K) (values : List K) : K :=
  sqrt (mean (values.map fun value => (value - mean values) ^ 2))

def velocityZ (sqrt : K → K) (alpha : K) (series : List K) : K :=
  if series.length < minBuckets then 0
  else
    let sd := pstdev sqrt (baseline alpha series)
    if sd < eps then
      if |latest alpha series| < eps then 0 else flatBaselineZ
    else (latest alpha series - mean (baseline alpha series)) / sd

def gapScore (velocityZ mainstreamPresence corroborationWeight inauthenticity : K) : K :=
  max 0 velocityZ * (1 - mainstreamPresence) * corroborationWeight * (1 - inauthenticity)

/-- The turns of `fill_series`, as many as there are. -/
def fillFrom (buckets : List (Int × K)) (until' step : Int) : ℕ → Int → List K
  | 0, _ => []
  | turns + 1, t =>
    if t ≤ until' then (buckets.lookup t).getD 0 :: fillFrom buckets until' step turns (t + step)
    else []

/-- `fill_series`; the step is positive, so every turn moves on. -/
def fillSeries (buckets : List (Int × K)) (since until' step : Int) : List K :=
  fillFrom buckets until' step (until' - since + 1).toNat since

/-- The earlier counts accelerate alike. -/
def Flat (sqrt : K → K) (alpha : K) (before : List K) : Prop :=
  pstdev sqrt (accel alpha before) < eps

/-- The score as a function of the last count: it never falls, and is positive only
where the acceleration is above the mean of the earlier ones. -/
structure Directed (sqrt : K → K) (alpha : K) (before : List K) : Prop where
  rises : ∀ first second, 0 ≤ first → first ≤ second →
    velocityZ sqrt alpha (before ++ [first]) ≤ velocityZ sqrt alpha (before ++ [second])
  above : ∀ last, 0 ≤ last → 0 < velocityZ sqrt alpha (before ++ [last]) →
    mean (baseline alpha (before ++ [last])) < latest alpha (before ++ [last])

section Series

omit [LinearOrder K]

variable {alpha : K}

theorem ewmaFrom_concat (prev x : K) (before : List K) :
    ewmaFrom alpha prev (before ++ [x]) = ewmaFrom alpha prev before ++
      [alpha * x + (1 - alpha) * (ewmaFrom alpha prev before).getLastD prev] := by
  induction before generalizing prev with
  | nil => rfl
  | cons y rest ih => simp only [List.cons_append, ewmaFrom, ih, List.getLastD_cons]

theorem ewma_concat {before : List K} (nonempty : before ≠ []) (x : K) :
    ewma alpha (before ++ [x]) =
      ewma alpha before ++ [alpha * x + (1 - alpha) * (ewma alpha before).getLastD 0] := by
  cases before with
  | nil => exact absurd rfl nonempty
  | cons y rest => simp only [List.cons_append, ewma, ewmaFrom_concat, List.getLastD_cons]

theorem length_ewma (series : List K) : (ewma alpha series).length = series.length := by
  have turns : ∀ (rest : List K) (prev : K), (ewmaFrom alpha prev rest).length = rest.length := by
    intro rest
    induction rest with
    | nil => exact fun _ => rfl
    | cons x rest ih => exact fun _ => congrArg (· + 1) (ih _)
  cases series with
  | nil => rfl
  | cons x rest => exact congrArg (· + 1) (turns rest x)

theorem accelerations_concat (init : List K) (s0 s1 s2 : K) :
    accelerations (init ++ [s0, s1, s2]) =
      accelerations (init ++ [s0, s1]) ++ [s2 - 2 * s1 + s0] := by
  induction init with
  | nil => rfl
  | cons first rest ih =>
    cases rest with
    | nil => rfl
    | cons second rest =>
      cases rest with
      | nil => rfl
      | cons third rest => exact congrArg (_ :: ·) ih

/-- The last count enters the last acceleration alone, by its weight. -/
theorem accel_concat (alpha : K) {before : List K} (two : 2 ≤ before.length) :
    ∃ rest, ∀ x, accel alpha (before ++ [x]) = accel alpha before ++ [rest + alpha * x] := by
  have long : 2 ≤ (ewma alpha before).length := by
    rwa [length_ewma]
  obtain ⟨init, s0, s1, smoothed⟩ : ∃ init s0 s1,
      ewma alpha before = (init ++ [s0]) ++ [s1] := by
    obtain ⟨front, s1, first⟩ := (ewma alpha before).eq_nil_or_concat'.resolve_left
      (List.ne_nil_of_length_pos (by omega))
    rw [first, List.length_append, List.length_singleton] at long
    obtain ⟨init, s0, second⟩ := front.eq_nil_or_concat'.resolve_left
      (List.ne_nil_of_length_pos (by omega))
    exact ⟨init, s0, s1, by rw [first, second]⟩
  refine ⟨(1 - alpha) * s1 - 2 * s1 + s0, fun x => ?_⟩
  have nonempty : before ≠ [] := List.ne_nil_of_length_pos (by omega)
  have joined : ∀ s2, accelerations (init ++ [s0] ++ [s1] ++ [s2]) =
      accelerations (init ++ [s0] ++ [s1]) ++ [s2 - 2 * s1 + s0] := by
    simpa using accelerations_concat init s0 s1
  rw [accel, accel, ewma_concat nonempty, smoothed, List.getLastD_concat, joined]
  refine congrArg (_ ++ [·]) ?_
  ring

theorem baseline_concat {before : List K} (two : 2 ≤ before.length) (x : K) :
    baseline alpha (before ++ [x]) = accel alpha before := by
  obtain ⟨rest, split⟩ := accel_concat alpha two
  rw [baseline, split, List.dropLast_concat]

theorem latest_concat (alpha : K) {before : List K} (two : 2 ≤ before.length) (x : K) :
    latest alpha (before ++ [x]) = latest alpha (before ++ [0]) + alpha * x := by
  obtain ⟨rest, split⟩ := accel_concat alpha two
  rw [latest, latest, split, split, List.getLastD_concat, List.getLastD_concat, mul_zero, add_zero]

end Series

section Direction

variable {sqrt : K → K} {alpha : K} {before : List K}

omit [Field K] [LinearOrder K] in
theorem two_le_of_minBuckets (enough : minBuckets ≤ before.length + 1) : 2 ≤ before.length := by
  unfold minBuckets at enough
  omega

omit [Field K] [LinearOrder K] in
theorem not_short (enough : minBuckets ≤ before.length + 1) (x : K) :
    ¬ (before ++ [x]).length < minBuckets := by
  rw [List.length_append, List.length_singleton]
  omega

theorem velocityZ_flat (enough : minBuckets ≤ before.length + 1) (flat : Flat sqrt alpha before)
    (x : K) : velocityZ sqrt alpha (before ++ [x]) =
      if |latest alpha (before ++ [x])| < eps then 0 else flatBaselineZ := by
  have deviation : pstdev sqrt (baseline alpha (before ++ [x])) < eps := by
    rwa [baseline_concat (two_le_of_minBuckets enough)]
  rw [velocityZ, if_neg (not_short enough x)]
  exact if_pos deviation

theorem velocityZ_restless (enough : minBuckets ≤ before.length + 1)
    (restless : ¬ Flat sqrt alpha before) (x : K) : velocityZ sqrt alpha (before ++ [x]) =
      (latest alpha (before ++ [x]) - mean (accel alpha before)) /
        pstdev sqrt (accel alpha before) := by
  rw [velocityZ, if_neg (not_short enough x), baseline_concat (two_le_of_minBuckets enough)]
  exact if_neg restless

variable [IsStrictOrderedRing K]

theorem eps_pos : 0 < (eps : K) := by
  rw [eps]
  positivity

theorem flatBaselineZ_pos : 0 < (flatBaselineZ : K) := by
  rw [flatBaselineZ]
  positivity

theorem latest_mono (positive : 0 < alpha) (two : 2 ≤ before.length) {first second : K}
    (le : first ≤ second) : latest alpha (before ++ [first]) ≤ latest alpha (before ++ [second]) := by
  have weighed := mul_le_mul_of_nonneg_left le positive.le
  rw [latest_concat alpha two first, latest_concat alpha two second]
  linarith

/-- Some last count brings the acceleration up to any value. -/
theorem exists_latest_eq (positive : 0 < alpha) (two : 2 ≤ before.length) (value : K)
    (le : latest alpha (before ++ [0]) ≤ value) :
    ∃ last, 0 ≤ last ∧ latest alpha (before ++ [last]) = value := by
  refine ⟨(value - latest alpha (before ++ [0])) / alpha, ?_, ?_⟩
  · exact div_nonneg (by linarith) positive.le
  · rw [latest_concat alpha two (_ / alpha), mul_div_cancel₀ _ positive.ne']
    ring

theorem directed_restless (positive : 0 < alpha) (enough : minBuckets ≤ before.length + 1)
    (restless : ¬ Flat sqrt alpha before) : Directed sqrt alpha before := by
  have two : 2 ≤ before.length := two_le_of_minBuckets enough
  have deviates : 0 < pstdev sqrt (accel alpha before) := eps_pos.trans_le (not_lt.mp restless)
  constructor
  · intro first second _ le
    rw [velocityZ_restless enough restless, velocityZ_restless enough restless]
    have faster := latest_mono positive two le
    exact div_le_div_of_nonneg_right (by linarith) deviates.le
  · intro last _ scores
    rw [velocityZ_restless enough restless] at scores
    rw [baseline_concat two]
    have above := (div_pos_iff_of_pos_right deviates).mp scores
    linarith

theorem flat_pos_iff (enough : minBuckets ≤ before.length + 1) (flat : Flat sqrt alpha before)
    (x : K) : 0 < velocityZ sqrt alpha (before ++ [x]) ↔
      eps ≤ |latest alpha (before ++ [x])| := by
  rw [velocityZ_flat enough flat]
  split
  · rename_i still
    exact ⟨fun impossible => absurd impossible (lt_irrefl 0), fun far => absurd still far.not_gt⟩
  · rename_i far
    exact ⟨fun _ => not_lt.mp far, fun _ => flatBaselineZ_pos⟩

/-- After a flat baseline the score never falls exactly if no last count is a drop. -/
theorem flat_rises_iff (positive : 0 < alpha) (enough : minBuckets ≤ before.length + 1)
    (flat : Flat sqrt alpha before) :
    (∀ first second, 0 ≤ first → first ≤ second →
      velocityZ sqrt alpha (before ++ [first]) ≤ velocityZ sqrt alpha (before ++ [second])) ↔
        -eps < latest alpha (before ++ [0]) := by
  have two : 2 ≤ before.length := two_le_of_minBuckets enough
  have small : (0 : K) < eps := eps_pos
  constructor
  · intro rises
    by_contra drops
    rw [not_lt] at drops
    obtain ⟨last, nonneg, still⟩ := exists_latest_eq positive two 0 (by linarith)
    -- the drop scores, and so does every larger count
    have fallen : eps ≤ |latest alpha (before ++ [0])| := le_abs.mpr (.inr (by linarith))
    have scores := ((flat_pos_iff enough flat 0).mpr fallen).trans_le (rises 0 last le_rfl nonneg)
    rw [flat_pos_iff enough flat, still, abs_zero] at scores
    exact absurd scores (not_le.mpr small)
  · intro risen first second nonneg le
    have start := latest_mono positive two nonneg
    have faster := latest_mono positive two le
    rw [velocityZ_flat enough flat, velocityZ_flat enough flat]
    by_cases still : |latest alpha (before ++ [second])| < eps
    · have stillBefore : |latest alpha (before ++ [first])| < eps :=
        abs_lt.mpr ⟨by linarith, faster.trans_lt (abs_lt.mp still).2⟩
      rw [if_pos still, if_pos stillBefore]
    · rw [if_neg still]
      split
      · exact flatBaselineZ_pos.le
      · exact le_rfl

/-- Without drops a flat baseline scores above its mean exactly if the spike threshold or
the first acceleration is above it. -/
theorem flat_above_iff (positive : 0 < alpha) (enough : minBuckets ≤ before.length + 1)
    (flat : Flat sqrt alpha before) (risen : -eps < latest alpha (before ++ [0])) :
    (∀ last, 0 ≤ last → 0 < velocityZ sqrt alpha (before ++ [last]) →
      mean (baseline alpha (before ++ [last])) < latest alpha (before ++ [last])) ↔
        mean (accel alpha before) < eps ∨
          mean (accel alpha before) < latest alpha (before ++ [0]) := by
  have two : 2 ≤ before.length := two_le_of_minBuckets enough
  constructor
  · intro above
    by_contra low
    rw [not_or, not_lt, not_lt] at low
    obtain ⟨last, nonneg, level⟩ := exists_latest_eq positive two _ low.2
    -- a count as fast as the mean scores
    have scores : 0 < velocityZ sqrt alpha (before ++ [last]) := by
      rw [flat_pos_iff enough flat, level]
      exact le_abs.mpr (.inl low.1)
    have faster := above last nonneg scores
    rw [baseline_concat two, level] at faster
    exact lt_irrefl _ faster
  · intro low last nonneg scores
    rw [flat_pos_iff enough flat] at scores
    rw [baseline_concat two]
    have start := latest_mono positive two nonneg
    rcases le_abs.mp scores with spike | drop
    · rcases low with low | low
      · exact low.trans_le spike
      · exact low.trans_le start
    · linarith

/-- A flat baseline keeps its direction if the last bin cannot bring the acceleration
down to a drop, and a spike is above the mean. -/
theorem directed_flat (positive : 0 < alpha) (enough : minBuckets ≤ before.length + 1)
    (flat : Flat sqrt alpha before) : Directed sqrt alpha before ↔
      -eps < latest alpha (before ++ [0]) ∧ (mean (accel alpha before) < eps ∨
        mean (accel alpha before) < latest alpha (before ++ [0])) := by
  constructor
  · intro directed
    have risen := (flat_rises_iff positive enough flat).mp directed.rises
    exact ⟨risen, (flat_above_iff positive enough flat risen).mp directed.above⟩
  · rintro ⟨risen, low⟩
    exact ⟨(flat_rises_iff positive enough flat).mpr risen,
      (flat_above_iff positive enough flat risen).mpr low⟩

/-- The score has its direction exactly after a restless baseline, or where a drop
cannot happen. -/
theorem directed_iff (positive : 0 < alpha) (enough : minBuckets ≤ before.length + 1) :
    Directed sqrt alpha before ↔ (Flat sqrt alpha before →
      -eps < latest alpha (before ++ [0]) ∧ (mean (accel alpha before) < eps ∨
        mean (accel alpha before) < latest alpha (before ++ [0]))) := by
  by_cases flat : Flat sqrt alpha before
  · rw [directed_flat positive enough flat]
    exact ⟨fun holds _ => holds, fun holds => holds flat⟩
  · have directed : Directed sqrt alpha before := directed_restless positive enough flat
    exact ⟨fun _ holds => absurd holds flat, fun _ => directed⟩

end Direction

/-- A burst out of silence. -/
theorem directed_silence : Directed (K := ℚ) (fun x => x) (3 / 10) (List.replicate 11 0) := by
  refine (directed_iff (by decide +kernel) (by decide)).mpr fun _ => ⟨?_, .inl ?_⟩
  · decide +kernel
  · decide +kernel

/-- After steady mentions a fall to none scores like a burst. -/
theorem steady_drop : ¬ Directed (K := ℚ) (fun x => x) (3 / 10) (List.replicate 11 10) := by
  intro directed
  have fell : velocityZ (K := ℚ) (fun x => x) (3 / 10) (List.replicate 11 10 ++ [0]) = 10 := by
    decide +kernel
  have still : velocityZ (K := ℚ) (fun x => x) (3 / 10) (List.replicate 11 10 ++ [10]) = 0 := by
    decide +kernel
  have rises := directed.rises 0 10 le_rfl (by decide +kernel)
  rw [fell, still] at rises
  exact absurd rises (by decide +kernel)

end NewsAggregator.Score
