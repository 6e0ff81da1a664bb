import Mathlib.Analysis.Complex.Exponential
import Mathlib.Tactic.Positivity
import NewsAggregator.Foundation.Run

/-! Estimating the rate of hits by an exponential average: a sample of `1 / gap` for
a hit and of `0` for a miss, each weighted by the gap before it. -/

namespace Foundation

/-- The estimate after a gap, with a hit at its end or not. -/
noncomputable def estimate (decay rate gap : ℝ) (hit : Bool) : ℝ :=
  Real.exp (-(decay * gap)) * rate + (1 - Real.exp (-(decay * gap))) * (if hit then 1 / gap else 0)

section Gap

variable {decay rate gap : ℝ}

/-- What a gap takes off the estimate, in shares: less than the gap times the decay. -/
theorem shed_le : 1 - Real.exp (-(decay * gap)) ≤ decay * gap := by
  have bound := Real.add_one_le_exp (-(decay * gap))
  linarith

theorem shed_nonneg (decays : 0 < decay) (positive : 0 < gap) :
    0 ≤ 1 - Real.exp (-(decay * gap)) := by
  have falls : -(decay * gap) ≤ 0 := by
    have product := mul_pos decays positive
    linarith
  have bound := Real.exp_le_one_iff.mpr falls
  linarith

/-- A gap takes off nearly all of its share: `x - x ^ 2 ≤ 1 - exp (-x)`. -/
theorem le_shed (decays : 0 < decay) (positive : 0 < gap) :
    decay * gap - (decay * gap) ^ 2 ≤ 1 - Real.exp (-(decay * gap)) := by
  have product := mul_pos decays positive
  have grows := Real.add_one_le_exp (decay * gap)
  have inverse : Real.exp (-(decay * gap)) * Real.exp (decay * gap) = 1 := by
    rw [← Real.exp_add]
    simp
  have least := Real.exp_pos (-(decay * gap))
  nlinarith [mul_le_mul_of_nonneg_left grows least.le, mul_pos product product]

theorem estimate_nonneg (decays : 0 < decay) (positive : 0 < gap) (nonneg : 0 ≤ rate)
    (hit : Bool) : 0 ≤ estimate decay rate gap hit := by
  have kept := mul_nonneg (Real.exp_pos (-(decay * gap))).le nonneg
  have share := shed_nonneg decays positive
  rw [estimate]
  split
  · have sample : 0 ≤ (1 - Real.exp (-(decay * gap))) * (1 / gap) := by positivity
    linarith
  · linarith

/-- A miss never raises the estimate. -/
theorem estimate_miss_le (decays : 0 < decay) (positive : 0 < gap) (nonneg : 0 ≤ rate) :
    estimate decay rate gap false ≤ rate := by
  have share := mul_nonneg (shed_nonneg decays positive) nonneg
  simp only [estimate, Bool.false_eq_true, if_false]
  linarith

/-- A hit raises the estimate by the decay at most. -/
theorem estimate_hit_le (decays : 0 < decay) (positive : 0 < gap) (nonneg : 0 ≤ rate) :
    estimate decay rate gap true ≤ rate + decay := by
  have share := mul_nonneg (shed_nonneg decays positive) nonneg
  have sample : (1 - Real.exp (-(decay * gap))) * (1 / gap) ≤ decay := by
    rw [mul_one_div, div_le_iff₀ positive]
    exact shed_le
  simp only [estimate, if_true]
  linarith

/-- The estimate stays below a bound of the rate and of the sample. -/
theorem estimate_le {bound : ℝ} (decays : 0 < decay) (positive : 0 < gap) (below : rate ≤ bound)
    (nonneg : 0 ≤ bound) (sample : 1 / gap ≤ bound) (hit : Bool) :
    estimate decay rate gap hit ≤ bound := by
  have kept := mul_le_mul_of_nonneg_left below (Real.exp_pos (-(decay * gap))).le
  have share := shed_nonneg decays positive
  have sampled : (if hit then 1 / gap else 0) ≤ bound := by
    split
    · exact sample
    · exact nonneg
  have weighed := mul_le_mul_of_nonneg_left sampled share
  rw [estimate]
  linarith

/-- A hit is paid for by the estimate, by what the gap sheds of it, and by the gap. -/
theorem hit_le (decays : 0 < decay) (positive : 0 < gap) (nonneg : 0 ≤ rate) (hit : Bool) :
    (if hit then 1 else 0 : ℝ) ≤
      (estimate decay rate gap hit - rate) / decay + gap * rate + decay * gap := by
  have shed : (1 - Real.exp (-(decay * gap))) / decay * rate ≤ gap * rate := by
    refine mul_le_mul_of_nonneg_right ?_ nonneg
    rw [div_le_iff₀ decays, mul_comm]
    exact shed_le
  have split : (estimate decay rate gap hit - rate) / decay =
      (1 - Real.exp (-(decay * gap))) / decay * (if hit then 1 / gap else 0) -
        (1 - Real.exp (-(decay * gap))) / decay * rate := by
    rw [estimate]
    ring
  rw [split]
  cases hit with
  | false =>
    have product := mul_pos decays positive
    simp only [Bool.false_eq_true, if_false]
    linarith
  | true =>
    have sample : 1 - decay * gap ≤ (1 - Real.exp (-(decay * gap))) / decay * (1 / gap) := by
      rw [div_mul_div_comm, mul_one, le_div_iff₀ (mul_pos decays positive)]
      have least := le_shed decays positive
      linarith
    simp only [if_true]
    linarith

end Gap

section Run

variable {σ ε : Type*} {step : σ → ε → σ}

/-- What the steps of a run add up to. -/
def total (step : σ → ε → σ) (amount : σ → ε → ℝ) : σ → List ε → ℝ
  | _, [] => 0
  | state, event :: rest => amount state event + total step amount (step state event) rest

/-- A machine whose every step is a sample of an estimate that stays below a peak
sees no more hits than the peak allows for the time that goes by. -/
theorem hits_le {decay peak : ℝ} {rate : σ → ℝ} {gap : σ → ε → ℝ} {hit : σ → ε → Bool}
    {condition : σ → ε → Prop} (invariant : σ → Prop) (decays : 0 < decay)
    (bounded : ∀ state, invariant state → 0 ≤ rate state ∧ rate state ≤ peak)
    (sampled : ∀ state event, invariant state → condition state event → 0 < gap state event ∧
      rate (step state event) = estimate decay (rate state) (gap state event) (hit state event))
    (preserved : ∀ state event, invariant state → condition state event →
      invariant (step state event))
    {start : σ} {events : List ε} (initial : invariant start)
    (along : Along step condition start events) :
    total step (fun state event => if hit state event then 1 else 0) start events ≤
      (peak - rate start) / decay + (peak + decay) * total step gap start events := by
  induction events generalizing start with
  | nil =>
    have room : 0 ≤ (peak - rate start) / decay :=
      div_nonneg (by linarith [(bounded start initial).2]) decays.le
    simpa [total] using room
  | cons event rest ih =>
    obtain ⟨nonneg, below⟩ := bounded start initial
    obtain ⟨wide, next⟩ := sampled start event initial along.1
    have later := ih (preserved start event initial along.1) along.2
    have paid := hit_le decays wide nonneg (hit start event)
    rw [← next] at paid
    have shed : gap start event * rate start ≤ gap start event * peak :=
      mul_le_mul_of_nonneg_left below wide.le
    have joined : (peak - rate start) / decay = (rate (step start event) - rate start) / decay +
        (peak - rate (step start event)) / decay := by ring
    rw [total, total, joined]
    linarith

end Run

end Foundation
