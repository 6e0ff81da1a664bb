import Mathlib.Analysis.SpecialFunctions.Log.Basic
import NewsAggregator.Enrich.Admission
import NewsAggregator.Foundation.Estimator

/-! How many social calls the governor admits: the threshold rises with every step
over the budget, and below its ceiling it refuses what is not relevant enough. -/

namespace NewsAggregator.Enrich

open Foundation

noncomputable def realMath : MathFns ℝ := ⟨Real.exp, Real.log⟩

namespace GovernorConfig

/-- The settings the control law is meant for. -/
structure Sound (cfg : GovernorConfig ℝ) : Prop where
  cap : 0 < cfg.capPerDay
  halflife : 0 < cfg.ewmaHalflifeS
  deadband : 0 ≤ cfg.deadband ∧ cfg.deadband < 1
  floor : 0 ≤ cfg.thetaFloor
  range : cfg.thetaFloor ≤ cfg.thetaCeiling
  additive : 0 ≤ cfg.additiveStep
  slew : 0 ≤ cfg.slewMax
  relax : 0 ≤ cfg.relaxRate ∧ cfg.relaxRate ≤ 1

theorem sound_default : Sound {} where
  cap := by decide
  halflife := by norm_num
  deadband := by norm_num [hundredths]
  floor := le_refl 0
  range := by norm_num [hundredths]
  additive := by norm_num [hundredths]
  slew := by norm_num [hundredths]
  relax := by norm_num [hundredths]

/-- The share of the estimate a second takes off. -/
noncomputable def decayRate (cfg : GovernorConfig ℝ) : ℝ :=
  Real.log (2 : ℕ) / cfg.ewmaHalflifeS

/-- The rate above which the threshold rises. -/
noncomputable def highRate (cfg : GovernorConfig ℝ) : ℝ := cfg.budgetPerS * (1 + cfg.deadband)

/-- The rates the governor can reach at a threshold. -/
noncomputable def reach (cfg : GovernorConfig ℝ) (theta : ℝ) : ℝ :=
  cfg.highRate + cfg.decayRate *
    ((if theta < cfg.thetaCeiling then 1 + (theta - cfg.thetaFloor) / cfg.additiveStep
      else 1 + (1 + (cfg.thetaCeiling - cfg.thetaFloor) / cfg.additiveStep)))

/-- The rates the governor can reach at all. -/
noncomputable def peak (cfg : GovernorConfig ℝ) : ℝ := cfg.reach cfg.thetaCeiling

section Reach

variable {cfg : GovernorConfig ℝ} {theta higher : ℝ}

theorem decayRate_pos (sound : cfg.Sound) : 0 < cfg.decayRate :=
  div_pos (Real.log_pos (Nat.one_lt_cast.mpr one_lt_two)) sound.halflife

theorem budgetPerS_pos (sound : cfg.Sound) : 0 < cfg.budgetPerS :=
  div_pos (Nat.cast_pos.mpr sound.cap) (by norm_num)

theorem highRate_pos (sound : cfg.Sound) : 0 < cfg.highRate :=
  mul_pos (budgetPerS_pos sound) (by linarith [sound.deadband.1])

theorem reach_le (sound : cfg.Sound) (additive : 0 < cfg.additiveStep) (rises : theta ≤ higher)
    (below : higher ≤ cfg.thetaCeiling) : cfg.reach theta ≤ cfg.reach higher := by
  refine add_le_add_right (mul_le_mul_of_nonneg_left ?_ (decayRate_pos sound).le) _
  have steps : (theta - cfg.thetaFloor) / cfg.additiveStep ≤
      (higher - cfg.thetaFloor) / cfg.additiveStep :=
    div_le_div_of_nonneg_right (by linarith) additive.le
  have more : (higher - cfg.thetaFloor) / cfg.additiveStep ≤
      (cfg.thetaCeiling - cfg.thetaFloor) / cfg.additiveStep :=
    div_le_div_of_nonneg_right (by linarith) additive.le
  split
  · split
    · linarith
    · linarith
  · have pinned : ¬ higher < cfg.thetaCeiling := by linarith
    rw [if_neg pinned]

theorem highRate_le_reach (sound : cfg.Sound) (additive : 0 < cfg.additiveStep)
    (above : cfg.thetaFloor ≤ theta) : cfg.highRate ≤ cfg.reach theta := by
  refine le_add_of_nonneg_right (mul_nonneg (decayRate_pos sound).le ?_)
  have steps : 0 ≤ (theta - cfg.thetaFloor) / cfg.additiveStep :=
    div_nonneg (by linarith) additive.le
  have most : 0 ≤ (cfg.thetaCeiling - cfg.thetaFloor) / cfg.additiveStep :=
    div_nonneg (by linarith [sound.range]) additive.le
  split <;> linarith

/-- A step of the threshold makes room for one more hit. -/
theorem reach_add_le (sound : cfg.Sound) (additive : 0 < cfg.additiveStep)
    (below : theta < cfg.thetaCeiling) :
    cfg.reach theta + cfg.decayRate ≤
      cfg.reach (min cfg.thetaCeiling (theta + cfg.additiveStep)) := by
  have room : (theta - cfg.thetaFloor) / cfg.additiveStep ≤
      (cfg.thetaCeiling - cfg.thetaFloor) / cfg.additiveStep :=
    div_le_div_of_nonneg_right (by linarith) additive.le
  have decays := decayRate_pos sound
  rw [reach, reach, if_pos below, add_assoc]
  refine add_le_add_right ?_ _
  rw [← mul_add_one]
  refine mul_le_mul_of_nonneg_left ?_ decays.le
  by_cases inside : theta + cfg.additiveStep < cfg.thetaCeiling
  · have step : (theta + cfg.additiveStep - cfg.thetaFloor) / cfg.additiveStep =
        (theta - cfg.thetaFloor) / cfg.additiveStep + 1 := by
      field_simp
      ring
    rw [min_eq_right inside.le, if_pos inside, step]
    linarith
  · rw [min_eq_left (not_lt.mp inside), if_neg (lt_irrefl _)]
    linarith

end Reach

end GovernorConfig

namespace AdmissionGovernor

/-- The gap before a call, as the average counts it. -/
noncomputable def gap (gov : AdmissionGovernor ℝ) (call : AdmitCall ℝ) : ℝ :=
  match gov.lastT with
  | none => 1 / (1000000 : ℕ)
  | some last => max (call.now - last) (1 / (1000000 : ℕ))

/-- What holds of a governor whose calls are all less relevant than the ceiling. -/
structure InBudget (cfg : GovernorConfig ℝ) (gov : AdmissionGovernor ℝ) : Prop where
  settings : gov.cfg = cfg
  range : cfg.thetaFloor ≤ gov.theta ∧ gov.theta ≤ cfg.thetaCeiling
  rate : 0 ≤ gov.rate
  reach : gov.rate ≤ cfg.reach gov.theta

end AdmissionGovernor

section Control

variable {cfg : GovernorConfig ℝ} {gov : AdmissionGovernor ℝ} {call : AdmitCall ℝ}

theorem step_range (sound : gov.cfg.Sound) :
    gov.cfg.thetaFloor ≤ gov.step.theta ∧ gov.step.theta ≤ gov.cfg.thetaCeiling := by
  simp only [AdmissionGovernor.step]
  exact ⟨le_max_left _ _, max_le sound.range (min_le_left _ _)⟩

/-- Over the budget the threshold rises by the additive step, up to its ceiling. -/
theorem step_over (sound : gov.cfg.Sound) (slow : gov.cfg.additiveStep ≤ gov.cfg.slewMax)
    (above : gov.cfg.thetaFloor ≤ gov.theta) (exceeds : gov.cfg.highRate < gov.rate) :
    gov.step.theta = min gov.cfg.thetaCeiling (gov.theta + gov.cfg.additiveStep) := by
  have exceeds' : gov.cfg.budgetPerS * (1 + gov.cfg.deadband) < gov.rate := exceeds
  have risen : gov.cfg.thetaFloor ≤
      min gov.cfg.thetaCeiling (gov.theta + gov.cfg.additiveStep) :=
    le_min sound.range (by linarith [sound.additive])
  have allowed : -gov.cfg.slewMax ≤ gov.cfg.additiveStep := by
    linarith [sound.slew, sound.additive]
  simp only [AdmissionGovernor.step, if_pos exceeds', min_eq_right slow, max_eq_right allowed,
    max_eq_right risen]

theorem gap_pos (gov : AdmissionGovernor ℝ) (call : AdmitCall ℝ) : 0 < gov.gap call := by
  rw [AdmissionGovernor.gap]
  split
  · norm_num
  · exact lt_max_of_lt_right (by norm_num)

theorem rate_next {last : ℝ} (called : gov.lastT = some last)
    (governed : ¬ AdmissionGovernor.Bypasses call.sourceClass) :
    (gov.next realMath call).rate =
      estimate gov.cfg.decayRate gov.rate (gov.gap call) (gov.admitCall realMath call).1 := by
  have share : ∀ dt : ℝ, gov.decay realMath dt = Real.exp (-(gov.cfg.decayRate * dt)) := by
    intro dt
    rw [AdmissionGovernor.decay, GovernorConfig.decayRate, Nat.cast_ofNat]
    refine congrArg Real.exp ?_
    simp only [realMath]
    ring
  rw [admit_governed governed, AdmissionGovernor.next, AdmissionGovernor.admitCall,
    AdmissionGovernor.admits, if_neg governed, AdmissionGovernor.gap, called]
  simp only [AdmissionGovernor.step, share, estimate, Nat.cast_ofNat]

theorem lastT_next (governed : ¬ AdmissionGovernor.Bypasses call.sourceClass) :
    (gov.next realMath call).lastT = some call.now := by
  rw [AdmissionGovernor.next, AdmissionGovernor.admitCall, AdmissionGovernor.admits,
    if_neg governed]
  rfl

theorem next_eq_step (governed : ¬ AdmissionGovernor.Bypasses call.sourceClass) :
    gov.next realMath call =
      { gov with rate := (gov.next realMath call).rate, lastT := some call.now }.step := by
  rw [AdmissionGovernor.next, AdmissionGovernor.admitCall, AdmissionGovernor.admits,
    if_neg governed]
  rfl

theorem range_next (gov : AdmissionGovernor ℝ) (call : AdmitCall ℝ) (sound : gov.cfg.Sound)
    (governed : ¬ AdmissionGovernor.Bypasses call.sourceClass) :
    gov.cfg.thetaFloor ≤ (gov.next realMath call).theta ∧
      (gov.next realMath call).theta ≤ gov.cfg.thetaCeiling := by
  rw [next_eq_step governed]
  let counted := { gov with rate := (gov.next realMath call).rate, lastT := some call.now }
  have unchanged : counted.cfg.Sound := sound
  exact step_range unchanged

/-- The control law keeps the rate within reach, also right after a hit below the ceiling. -/
theorem inBudget_step (sound : cfg.Sound) (additive : 0 < cfg.additiveStep)
    (slow : cfg.additiveStep ≤ cfg.slewMax) (settings : gov.cfg = cfg)
    (range : cfg.thetaFloor ≤ gov.theta ∧ gov.theta ≤ cfg.thetaCeiling) (rate : 0 ≤ gov.rate)
    (reach : gov.rate ≤ cfg.reach gov.theta ∨
      gov.theta < cfg.thetaCeiling ∧ gov.rate ≤ cfg.reach gov.theta + cfg.decayRate) :
    gov.step.InBudget cfg := by
  subst settings
  have next := step_range sound
  refine ⟨rfl, next, rate, ?_⟩
  have kept : gov.step.rate = gov.rate := rfl
  rw [kept]
  by_cases exceeds : gov.cfg.highRate < gov.rate
  · rw [step_over sound slow range.1 exceeds]
    rcases reach with inside | ⟨below, hit⟩
    · exact inside.trans (GovernorConfig.reach_le sound additive
        (le_min range.2 (by linarith)) (min_le_left _ _))
    · exact hit.trans (GovernorConfig.reach_add_le sound additive below)
  · exact (not_lt.mp exceeds).trans (GovernorConfig.highRate_le_reach sound additive next.1)

theorem inBudget_next (sound : cfg.Sound) (additive : 0 < cfg.additiveStep)
    (slow : cfg.additiveStep ≤ cfg.slewMax) (within : gov.InBudget cfg)
    (called : gov.lastT.isSome) (social : call.sourceClass = .social)
    (relevance : call.relevance < cfg.thetaCeiling) : (gov.next realMath call).InBudget cfg := by
  obtain ⟨last, called⟩ := Option.isSome_iff_exists.mp called
  obtain ⟨settings, range, rate, reach⟩ := within
  have sampled := rate_next called (governed_of_social social)
  have decays := GovernorConfig.decayRate_pos sound
  rw [settings] at sampled
  rw [next_eq_step (governed_of_social social)]
  refine inBudget_step sound additive slow settings range ?_ ?_
  · rw [sampled]
    exact estimate_nonneg decays (gap_pos gov call) rate _
  · rw [admit_social social] at sampled
    by_cases admitted : gov.theta ≤ call.relevance
    · right
      rw [decide_eq_true admitted] at sampled
      have raised := estimate_hit_le decays (gap_pos gov call) rate
      exact ⟨admitted.trans_lt relevance, by simp only [sampled]; linarith⟩
    · left
      rw [decide_eq_false admitted] at sampled
      have fallen := estimate_miss_le decays (gap_pos gov call) rate
      simp only [sampled]
      linarith

/-- Below the ceiling: after its first call a governor admits what its rates allow for. -/
theorem total_admitted_le (sound : cfg.Sound) (additive : 0 < cfg.additiveStep)
    (slow : cfg.additiveStep ≤ cfg.slewMax) (within : gov.InBudget cfg)
    (called : gov.lastT.isSome) {calls : List (AdmitCall ℝ)}
    (social : ∀ call ∈ calls, call.sourceClass = .social)
    (relevance : ∀ call ∈ calls, call.relevance < cfg.thetaCeiling) :
    total (AdmissionGovernor.next realMath)
        (fun gov call => if (gov.admitCall realMath call).1 then 1 else 0) gov calls ≤
      (cfg.peak - gov.rate) / cfg.decayRate + (cfg.peak + cfg.decayRate) *
        total (AdmissionGovernor.next realMath) AdmissionGovernor.gap gov calls := by
  have along : Along (AdmissionGovernor.next realMath)
      (fun _ call => call.sourceClass = .social ∧ call.relevance < cfg.thetaCeiling) gov calls :=
    along_of_mem fun call member _ => ⟨social call member, relevance call member⟩
  refine hits_le (fun gov => gov.InBudget cfg ∧ gov.lastT.isSome)
    (GovernorConfig.decayRate_pos sound) ?_ ?_ ?_ ⟨within, called⟩ along
  · rintro state ⟨inside, _⟩
    exact ⟨inside.rate, inside.reach.trans
      (GovernorConfig.reach_le sound additive inside.range.2 le_rfl)⟩
  · rintro state event ⟨inside, before⟩ ⟨isSocial, _⟩
    obtain ⟨last, before⟩ := Option.isSome_iff_exists.mp before
    have sampled := rate_next before (governed_of_social isSocial)
    rw [inside.settings] at sampled
    exact ⟨gap_pos state event, sampled⟩
  · rintro state event ⟨inside, before⟩ ⟨isSocial, low⟩
    refine ⟨inBudget_next sound additive slow inside before isSocial low, ?_⟩
    rw [lastT_next (governed_of_social isSocial)]
    rfl

/-- The gaps of calls in order of time, each counted as a microsecond at least. -/
theorem total_gap_le {last latest : ℝ} (called : gov.lastT = some last) (early : last ≤ latest)
    {calls : List (AdmitCall ℝ)} (social : ∀ call ∈ calls, call.sourceClass = .social)
    (ordered : calls.Pairwise fun earlier later => earlier.now ≤ later.now)
    (after : ∀ call ∈ calls, last ≤ call.now ∧ call.now ≤ latest) :
    total (AdmissionGovernor.next realMath) AdmissionGovernor.gap gov calls ≤
      latest - last + calls.length / 1000000 := by
  induction calls generalizing gov last with
  | nil => simp [total, early]
  | cons call rest ih =>
    obtain ⟨first, others⟩ := List.pairwise_cons.mp ordered
    obtain ⟨later, before⟩ := after call List.mem_cons_self
    have reached : (gov.next realMath call).lastT = some call.now :=
      lastT_next (governed_of_social (social call List.mem_cons_self))
    have remaining := ih reached before
      (fun other member => social other (List.mem_cons_of_mem call member)) others
      fun other member => ⟨first other member, (after other (List.mem_cons_of_mem call member)).2⟩
    have counted : gov.gap call ≤ call.now - last + 1 / 1000000 := by
      simp only [AdmissionGovernor.gap, called, Nat.cast_ofNat]
      exact max_le (by linarith) (by linarith)
    rw [total, List.length_cons, Nat.cast_succ, add_div]
    linarith

end Control

namespace AdmissionGovernor

/-- How many of the calls are admitted. -/
def admissions {K : Type} [Field K] [LinearOrder K] (math : MathFns K)
    (gov : AdmissionGovernor K) (calls : List (AdmitCall K)) : ℕ :=
  (gov.decisions math calls).countP fun decision => decision.2

end AdmissionGovernor

theorem admissions_cons (gov : AdmissionGovernor ℝ) (call : AdmitCall ℝ)
    (rest : List (AdmitCall ℝ)) : gov.admissions realMath (call :: rest) =
      (gov.next realMath call).admissions realMath rest +
        if (gov.admitCall realMath call).1 then 1 else 0 :=
  List.countP_cons

theorem total_admitted (gov : AdmissionGovernor ℝ) (calls : List (AdmitCall ℝ)) :
    total (AdmissionGovernor.next realMath)
      (fun gov call => if (gov.admitCall realMath call).1 then 1 else 0) gov calls =
      gov.admissions realMath calls := by
  induction calls generalizing gov with
  | nil => simp [total, AdmissionGovernor.admissions, AdmissionGovernor.decisions]
  | cons call rest ih =>
    rw [total, ih, admissions_cons, Nat.cast_add, Nat.cast_ite, add_comm]
    simp

/-- Calls of one run: social, in order of time, spanning the duration at most, with
a relevance from zero on that is in range. -/
structure SocialRun (inRange : ℝ → Prop) (duration : ℝ) (calls : List (AdmitCall ℝ)) : Prop where
  lasts : 0 ≤ duration
  social : ∀ call ∈ calls, call.sourceClass = .social
  ordered : calls.Pairwise fun earlier later => earlier.now ≤ later.now
  spans : ∀ earlier ∈ calls, ∀ later ∈ calls, later.now - earlier.now ≤ duration
  relevance : ∀ call ∈ calls, 0 ≤ call.relevance ∧ inRange call.relevance

/-- The settings a governor has by default. -/
noncomputable def defaults : GovernorConfig ℝ := AdmissionGovernor.initial.cfg

/-- The first call has no gap before it, and leaves the rate at zero. -/
theorem rate_first {call : AdmitCall ℝ} (social : call.sourceClass = .social) :
    (AdmissionGovernor.initial.next realMath call).rate = 0 := by
  rw [AdmissionGovernor.next, AdmissionGovernor.admitCall, AdmissionGovernor.admits,
    if_neg (governed_of_social social)]
  rfl

theorem additive_default : 0 < defaults.additiveStep ∧
    defaults.additiveStep ≤ defaults.slewMax := by
  norm_num [defaults, AdmissionGovernor.initial, hundredths]

theorem inBudget_first {call : AdmitCall ℝ} (social : call.sourceClass = .social) :
    (AdmissionGovernor.initial.next realMath call).InBudget defaults := by
  have sound : defaults.Sound := GovernorConfig.sound_default
  have unrated := rate_first social
  obtain ⟨additive, slow⟩ := additive_default
  have reach := GovernorConfig.highRate_le_reach sound additive (le_refl defaults.thetaFloor)
  rw [next_eq_step (governed_of_social social)]
  refine inBudget_step sound additive slow rfl ⟨le_refl _, sound.range⟩ unrated.ge ?_
  exact Or.inl (unrated.le.trans ((GovernorConfig.highRate_pos sound).le.trans reach))

/-- Below the ceiling the governor holds its budget, up to what its rate can reach, for
the duration and a microsecond more for every call. -/
theorem admissions_le {duration : ℝ} {calls : List (AdmitCall ℝ)}
    (arrive : SocialRun (· < defaults.thetaCeiling) duration calls) :
    (AdmissionGovernor.initial.admissions realMath calls : ℝ) ≤
      1 + defaults.peak / defaults.decayRate +
        (defaults.peak + defaults.decayRate) * (duration + calls.length / 1000000) := by
  have sound : defaults.Sound := GovernorConfig.sound_default
  obtain ⟨additive, slow⟩ := additive_default
  have decays := GovernorConfig.decayRate_pos sound
  have peak : 0 < defaults.peak :=
    (GovernorConfig.highRate_pos sound).trans_le
      (GovernorConfig.highRate_le_reach sound additive sound.range)
  have lasts := arrive.lasts
  cases calls with
  | nil =>
    have bound : 0 ≤ 1 + defaults.peak / defaults.decayRate +
        (defaults.peak + defaults.decayRate) * (duration + 0 / 1000000) := by positivity
    simpa [AdmissionGovernor.admissions, AdmissionGovernor.decisions] using bound
  | cons call rest =>
    obtain ⟨first, others⟩ := List.pairwise_cons.mp arrive.ordered
    have member : call ∈ call :: rest := List.mem_cons_self
    have later := fun other (present : other ∈ rest) => List.mem_cons_of_mem call present
    have isSocial := arrive.social call member
    have called : (AdmissionGovernor.initial.next realMath call).lastT = some call.now :=
      lastT_next (governed_of_social isSocial)
    have unrated := rate_first isSocial
    have within := inBudget_first isSocial
    have paid := total_admitted_le sound additive slow within (called ▸ rfl)
      (fun other present => arrive.social other (later other present))
      fun other present => (arrive.relevance other (later other present)).2
    have waited := total_gap_le called (by linarith : call.now ≤ call.now + duration)
      (fun other present => arrive.social other (later other present)) others
      fun other present =>
        ⟨first other present, by linarith [arrive.spans call member other (later other present)]⟩
    rw [total_admitted, unrated, sub_zero] at paid
    have one :
        (if (AdmissionGovernor.initial.admitCall realMath call).1 then 1 else 0 : ℝ) ≤ 1 := by
      split <;> norm_num
    have scaled := mul_le_mul_of_nonneg_left waited (add_pos peak decays).le
    have longer : (defaults.peak + defaults.decayRate) *
          (call.now + duration - call.now + rest.length / 1000000) ≤
        (defaults.peak + defaults.decayRate) * (duration + (call :: rest).length / 1000000) := by
      refine mul_le_mul_of_nonneg_left ?_ (add_pos peak decays).le
      rw [List.length_cons, Nat.cast_succ]
      linarith
    rw [admissions_cons, Nat.cast_add, Nat.cast_ite, Nat.cast_one, Nat.cast_zero]
    linarith

/-- Two calls a second apart, each of them admitted. -/
theorem admissions_le_two :
    (AdmissionGovernor.initial.admissions realMath
        [⟨1 / 2, .social, 0⟩, ⟨1 / 2, .social, 1⟩] : ℝ) ≤
      1 + defaults.peak / defaults.decayRate +
        (defaults.peak + defaults.decayRate) * (1 + 2 / 1000000) := by
  have low : (1 / 2 : ℝ) < defaults.thetaCeiling := by
    norm_num [defaults, AdmissionGovernor.initial, hundredths]
  refine admissions_le ⟨zero_le_one, ?_, ?_, ?_, ?_⟩
  · simp
  · simp
  · simp
  · intro call member
    simp only [List.mem_cons, List.not_mem_nil, or_false] at member
    rcases member with rfl | rfl
    · exact ⟨by norm_num, low⟩
    · exact ⟨by norm_num, low⟩

end NewsAggregator.Enrich
