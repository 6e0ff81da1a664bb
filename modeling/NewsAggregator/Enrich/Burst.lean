import Mathlib.Analysis.SpecificLimits.Basic
import NewsAggregator.Enrich.Budget

/-! Calls at one instant: the average counts a microsecond for each of them, so that
enough of them are admitted again and again. -/

namespace NewsAggregator.Enrich

open Foundation

/-- The calls admitted in any one duration are bounded, however many calls there are. -/
def BudgetHeld (inRange : ℝ → Prop) : Prop :=
  ∀ duration : ℝ, ∃ bound : ℕ, ∀ calls, SocialRun inRange duration calls →
    AdmissionGovernor.initial.admissions realMath calls ≤ bound

section Burst

/-- Calls at one instant. -/
def burst (relevance : ℝ) (count : ℕ) : List (AdmitCall ℝ) :=
  List.replicate count ⟨relevance, .social, 0⟩

theorem burst_succ (relevance : ℝ) (count : ℕ) :
    burst relevance (count + 1) = ⟨relevance, .social, 0⟩ :: burst relevance count := rfl

theorem socialRun_burst {inRange : ℝ → Prop} {relevance : ℝ} (nonneg : 0 ≤ relevance)
    (fits : inRange relevance) (count : ℕ) : SocialRun inRange 0 (burst relevance count) where
  lasts := le_refl 0
  social _ member := by
    rw [List.eq_of_mem_replicate member]
  ordered := List.pairwise_replicate.mpr (Or.inr le_rfl)
  spans _ member _ other := by
    rw [List.eq_of_mem_replicate member, List.eq_of_mem_replicate other]
    exact (sub_self _).le
  relevance _ member := by
    rw [List.eq_of_mem_replicate member]
    exact ⟨nonneg, fits⟩

/-- A governor with the default settings that has decided a call at the instant. -/
structure InBurst (gov : AdmissionGovernor ℝ) : Prop where
  settings : gov.cfg = defaults
  range : 0 ≤ gov.theta ∧ gov.theta ≤ defaults.thetaCeiling
  rate : 0 ≤ gov.rate
  lastT : gov.lastT = some 0

variable {gov : AdmissionGovernor ℝ} {relevance : ℝ}

theorem rate_burst (inBurst : InBurst gov) :
    (gov.next realMath ⟨relevance, .social, 0⟩).rate =
      estimate defaults.decayRate gov.rate (1 / 1000000)
        (gov.admitCall realMath ⟨relevance, .social, 0⟩).1 := by
  have sampled : (gov.next realMath ⟨relevance, .social, 0⟩).rate = _ :=
    rate_next inBurst.lastT (governed_of_social rfl)
  have instant : gov.gap ⟨relevance, .social, 0⟩ = 1 / 1000000 := by
    rw [AdmissionGovernor.gap, inBurst.lastT]
    norm_num
  rwa [inBurst.settings, instant] at sampled

theorem InBurst.next (inBurst : InBurst gov) :
    InBurst (gov.next realMath ⟨relevance, .social, 0⟩) := by
  have settings : (gov.next realMath ⟨relevance, .social, 0⟩).cfg = defaults :=
    cfg_next.trans inBurst.settings
  refine ⟨settings, ?_, ?_, lastT_next (governed_of_social rfl)⟩
  · have sound : gov.cfg.Sound := inBurst.settings ▸ GovernorConfig.sound_default
    have range := range_next gov ⟨relevance, .social, 0⟩ sound (governed_of_social rfl)
    rwa [inBurst.settings] at range
  · rw [rate_burst inBurst]
    exact estimate_nonneg (GovernorConfig.decayRate_pos GovernorConfig.sound_default)
      (by norm_num) inBurst.rate _

/-- The governor after some calls at one instant. -/
noncomputable def burstAt (gov : AdmissionGovernor ℝ) (relevance : ℝ) (count : ℕ) :
    AdmissionGovernor ℝ :=
  run (AdmissionGovernor.next realMath) gov (burst relevance count)

theorem burstAt_succ (count : ℕ) : burstAt gov relevance (count + 1) =
    (burstAt gov relevance count).next realMath ⟨relevance, .social, 0⟩ := by
  simp only [burstAt, burst, List.replicate_succ', run_concat]

theorem burstAt_add (first second : ℕ) : burstAt gov relevance (first + second) =
    burstAt (burstAt gov relevance first) relevance second := by
  simp only [burstAt, burst, List.replicate_add, run_append]

theorem InBurst.run (inBurst : InBurst gov) (count : ℕ) :
    InBurst (burstAt gov relevance count) := by
  induction count with
  | zero => exact inBurst
  | succ count ih =>
    rw [burstAt_succ]
    exact ih.next

/-- Well under the budget the threshold sheds a twentieth with every step. -/
theorem theta_burst (inBurst : InBurst gov)
    (under : (gov.next realMath ⟨relevance, .social, 0⟩).rate < defaults.budgetPerS * (9 / 10)) :
    (gov.next realMath ⟨relevance, .social, 0⟩).theta = gov.theta * (95 / 100) := by
  obtain ⟨settings, range, rate, _⟩ := inBurst
  have budget := GovernorConfig.budgetPerS_pos GovernorConfig.sound_default
  have ceiling : defaults.thetaCeiling = 99 / 100 := by
    norm_num [defaults, AdmissionGovernor.initial, hundredths]
  have high : ¬ defaults.budgetPerS * (1 + defaults.deadband) <
      (gov.next realMath ⟨relevance, .social, 0⟩).rate := by
    have deadband : defaults.deadband = 1 / 10 := by
      norm_num [defaults, AdmissionGovernor.initial, hundredths]
    rw [deadband]
    have wider : defaults.budgetPerS * (9 / 10) ≤ defaults.budgetPerS * (1 + 1 / 10) :=
      mul_le_mul_of_nonneg_left (by norm_num) budget.le
    exact not_lt.mpr (under.le.trans wider)
  have low : (gov.next realMath ⟨relevance, .social, 0⟩).rate <
      defaults.budgetPerS * (1 - defaults.deadband) := by
    have deadband : 1 - defaults.deadband = 9 / 10 := by
      norm_num [defaults, AdmissionGovernor.initial, hundredths]
    rwa [deadband]
  have slew : defaults.slewMax = 5 / 100 := by
    norm_num [defaults, AdmissionGovernor.initial, hundredths]
  have relax : defaults.relaxRate = 5 / 100 := by
    norm_num [defaults, AdmissionGovernor.initial, hundredths]
  have floor : defaults.thetaFloor = 0 := rfl
  rw [ceiling] at range
  have slight : -(gov.theta - 0) * (5 / 100) ≤ (5 / 100 : ℝ) := by linarith
  have gentle : -(5 / 100 : ℝ) ≤ -(gov.theta - 0) * (5 / 100) := by linarith
  have under : gov.theta + -(gov.theta - 0) * (5 / 100) ≤ (99 / 100 : ℝ) := by linarith
  have nonneg : 0 ≤ gov.theta + -(gov.theta - 0) * (5 / 100) := by linarith
  rw [next_eq_step (governed_of_social rfl)]
  simp only [AdmissionGovernor.step, settings, if_neg high, if_pos low, slew, relax, floor, ceiling,
    min_eq_right slight, max_eq_right gentle, min_eq_right under, max_eq_right nonneg]
  ring

/-- The share of the rate that the shortest gap leaves. -/
noncomputable def instantShare : ℝ := Real.exp (-(defaults.decayRate * (1 / (1000000 : ℕ))))

theorem instantShare_lt_one : instantShare < 1 := by
  have decays := GovernorConfig.decayRate_pos GovernorConfig.sound_default
  have falls := mul_pos decays (by norm_num : (0 : ℝ) < 1 / (1000000 : ℕ))
  exact Real.exp_lt_one_iff.mpr (neg_lt_zero.mpr falls)

theorem rate_refusing (inBurst : InBurst gov)
    (refusing : ∀ count, relevance < (burstAt gov relevance count).theta) (count : ℕ) :
    (burstAt gov relevance count).rate = instantShare ^ count * gov.rate := by
  induction count with
  | zero => simp [burstAt, burst]
  | succ count ih =>
    have refused : ((burstAt gov relevance count).admitCall realMath ⟨relevance, .social, 0⟩).1 =
        false := by
      rw [admit_social rfl]
      exact decide_eq_false (not_le.mpr (refusing count))
    rw [burstAt_succ, rate_burst (inBurst.run count), refused, ih, pow_succ]
    simp only [estimate, Bool.false_eq_true, if_false, mul_zero, add_zero, instantShare,
      Nat.cast_ofNat]
    ring

theorem theta_refusing (inBurst : InBurst gov)
    (under : ∀ count, (burstAt gov relevance (count + 1)).rate < defaults.budgetPerS * (9 / 10))
    (count : ℕ) : (burstAt gov relevance count).theta = (95 / 100) ^ count * gov.theta := by
  induction count with
  | zero => simp [burstAt, burst]
  | succ count ih =>
    have low := under count
    rw [burstAt_succ] at low ⊢
    rw [theta_burst (inBurst.run count) low, ih, pow_succ]
    ring

/-- However long a governor has refused, calls at one instant are admitted again. -/
theorem admitted_again (inBurst : InBurst gov) (positive : 0 < relevance) :
    ∃ count, (burstAt gov relevance count).theta ≤ relevance := by
  by_contra refusing
  simp only [not_exists, not_le] at refusing
  have budget : 0 < defaults.budgetPerS * (9 / 10) :=
    mul_pos (GovernorConfig.budgetPerS_pos GovernorConfig.sound_default) (by norm_num)
  have shares : 0 ≤ instantShare := (Real.exp_pos _).le
  -- the rate falls below the budget, since no call is admitted
  obtain ⟨fallen, fell⟩ : ∃ count, instantShare ^ count < 
      defaults.budgetPerS * (9 / 10) / (gov.rate + 1) :=
    exists_pow_lt_of_lt_one (div_pos budget (by linarith [inBurst.rate])) instantShare_lt_one
  have under : ∀ count, fallen ≤ count →
      (burstAt gov relevance count).rate < defaults.budgetPerS * (9 / 10) := by
    intro count later
    rw [rate_refusing inBurst refusing]
    have less := pow_le_pow_of_le_one shares instantShare_lt_one.le later
    rw [lt_div_iff₀ (by linarith [inBurst.rate])] at fell
    have scaled := mul_le_mul_of_nonneg_right less inBurst.rate
    have rest := pow_nonneg shares fallen
    linarith
  -- and then the threshold falls below the relevance
  have low : InBurst (burstAt gov relevance fallen) := inBurst.run fallen
  obtain ⟨opened, opens⟩ : ∃ count, (95 / 100 : ℝ) ^ count <
      relevance / ((burstAt gov relevance fallen).theta + 1) :=
    exists_pow_lt_of_lt_one (div_pos positive (by linarith [low.range.1])) (by norm_num)
  have settled : ∀ count, (burstAt (burstAt gov relevance fallen) relevance (count + 1)).rate <
      defaults.budgetPerS * (9 / 10) := by
    intro count
    rw [← burstAt_add]
    exact under _ (Nat.le_add_right _ _)
  have theta := theta_refusing low settled opened
  rw [lt_div_iff₀ (by linarith [low.range.1])] at opens
  have still := refusing (fallen + opened)
  rw [burstAt_add, theta] at still
  have rest : (0 : ℝ) ≤ (95 / 100) ^ opened := pow_nonneg (by norm_num) opened
  linarith

theorem admissions_burst_add (first second : ℕ) :
    gov.admissions realMath (burst relevance (first + second)) =
      gov.admissions realMath (burst relevance first) +
        (burstAt gov relevance first).admissions realMath (burst relevance second) := by
  induction first generalizing gov with
  | zero => simp [burst, burstAt, AdmissionGovernor.admissions, AdmissionGovernor.decisions]
  | succ first ih =>
    have split : burst relevance (first + 1 + second) =
        ⟨relevance, .social, 0⟩ :: burst relevance (first + second) := by
      rw [Nat.add_right_comm]
      rfl
    rw [split, burst_succ, admissions_cons, admissions_cons, ih]
    have reached : burstAt gov relevance (first + 1) =
        burstAt (gov.next realMath ⟨relevance, .social, 0⟩) relevance first := rfl
    rw [reached]
    omega

/-- Calls at one instant are admitted without bound. -/
theorem admissions_burst (inBurst : InBurst gov) (positive : 0 < relevance) (bound : ℕ) :
    ∃ count, bound ≤ gov.admissions realMath (burst relevance count) := by
  induction bound generalizing gov with
  | zero => exact ⟨0, Nat.zero_le _⟩
  | succ bound ih =>
    obtain ⟨waiting, open'⟩ := admitted_again inBurst positive
    have reached : InBurst (burstAt gov relevance waiting) := inBurst.run waiting
    have after : InBurst ((burstAt gov relevance waiting).next realMath
        ⟨relevance, .social, 0⟩) := reached.next
    obtain ⟨later, counted⟩ := ih after
    refine ⟨waiting + (later + 1), ?_⟩
    have admitted : ((burstAt gov relevance waiting).admitCall realMath
        ⟨relevance, .social, 0⟩).1 = true := by
      rw [admit_social rfl]
      exact decide_eq_true open'
    rw [admissions_burst_add, burst_succ, admissions_cons, admitted, if_pos rfl]
    omega

theorem not_budgetHeld {inRange : ℝ → Prop} (positive : 0 < relevance)
    (fits : inRange relevance) : ¬ BudgetHeld inRange := by
  intro held
  obtain ⟨bound, bounds⟩ := held 0
  have inBurst : InBurst (AdmissionGovernor.initial.next realMath ⟨relevance, .social, 0⟩) := by
    have range := range_next .initial ⟨relevance, .social, 0⟩ GovernorConfig.sound_default
      (governed_of_social rfl)
    exact ⟨cfg_next, range, le_refl 0, lastT_next (governed_of_social rfl)⟩
  obtain ⟨count, counted⟩ := admissions_burst inBurst positive (bound + 1)
  have most := bounds _ (socialRun_burst positive.le fits (count + 1))
  rw [burst_succ, admissions_cons] at most
  omega

/-- From the ceiling on every call is admitted. -/
theorem admissions_ceiling (settings : gov.cfg = defaults)
    (below : gov.theta ≤ defaults.thetaCeiling) (ceiling : defaults.thetaCeiling ≤ relevance)
    (count : ℕ) : gov.admissions realMath (burst relevance count) = count := by
  induction count generalizing gov with
  | zero => rfl
  | succ count ih =>
    have sound : gov.cfg.Sound := settings ▸ GovernorConfig.sound_default
    have range := range_next gov ⟨relevance, .social, 0⟩ sound (governed_of_social rfl)
    have admitted : (gov.admitCall realMath ⟨relevance, .social, 0⟩).1 = true := by
      rw [admit_social rfl]
      exact decide_eq_true (below.trans ceiling)
    rw [burst_succ, admissions_cons, ih (cfg_next.trans settings) (settings ▸ range.2), admitted,
      if_pos rfl]

end Burst

/-- The budget is not held at one instant, and above the ceiling not at all. -/
theorem budget_exceeded : ¬ BudgetHeld (· ≤ 1) ∧ ¬ BudgetHeld (· < defaults.thetaCeiling) ∧
    ∀ count, AdmissionGovernor.initial.admissions realMath (burst 1 count) = count := by
  have low : (1 / 2 : ℝ) < defaults.thetaCeiling := by
    norm_num [defaults, AdmissionGovernor.initial, hundredths]
  have high : defaults.thetaCeiling ≤ 1 := by
    norm_num [defaults, AdmissionGovernor.initial, hundredths]
  refine ⟨not_budgetHeld one_half_pos (by norm_num), not_budgetHeld one_half_pos low, ?_⟩
  exact admissions_ceiling rfl GovernorConfig.sound_default.range high

end NewsAggregator.Enrich
