import NewsAggregator.Enrich.Budget

/-! The governor over any calls: its threshold stays in its range and moves slowly, and
it sheds nothing while the calls keep the pace of the budget. -/

namespace NewsAggregator.Enrich

open Foundation

/-- The threshold is in its range and the rate is not negative. -/
structure WithinLimits (cfg : GovernorConfig ℝ) (gov : AdmissionGovernor ℝ) : Prop where
  settings : gov.cfg = cfg
  range : cfg.thetaFloor ≤ gov.theta ∧ gov.theta ≤ cfg.thetaCeiling
  rate : 0 ≤ gov.rate

/-- A call moves the threshold by the slew limit at most. -/
def SlewLimited (gov : AdmissionGovernor ℝ) (call : AdmitCall ℝ) : Prop :=
  |(gov.next realMath call).theta - gov.theta| ≤ gov.cfg.slewMax

/-- The times of the calls the governor sees. -/
def governedTimes (calls : List (AdmitCall ℝ)) : List ℝ :=
  (calls.filter fun call => ¬ AdmissionGovernor.Bypasses call.sourceClass).map AdmitCall.now

/-- Consecutive times are at least a gap apart. -/
def Spaced (gap : ℝ) (times : List ℝ) : Prop :=
  times.IsChain fun first second => gap ≤ second - first

/-- A governed call comes a gap after the last one. -/
def Paced (gap : ℝ) (gov : AdmissionGovernor ℝ) (call : AdmitCall ℝ) : Prop :=
  ¬ AdmissionGovernor.Bypasses call.sourceClass → ∀ last ∈ gov.lastT, gap ≤ call.now - last

/-- The governor sheds nothing, and its rate is within the budget. -/
structure Calm (cfg : GovernorConfig ℝ) (gov : AdmissionGovernor ℝ) : Prop where
  settings : gov.cfg = cfg
  theta : gov.theta = cfg.thetaFloor
  rate : gov.rate ≤ cfg.highRate

/-- What is relevant enough for the floor is admitted. -/
def AdmitsFloor (cfg : GovernorConfig ℝ) (gov : AdmissionGovernor ℝ) (call : AdmitCall ℝ) : Prop :=
  cfg.thetaFloor ≤ call.relevance → (gov.admitCall realMath call).1 = true

section Control

variable {cfg : GovernorConfig ℝ} {gov : AdmissionGovernor ℝ} {call : AdmitCall ℝ}

/-- The slew limit holds after clamping too, from a value in the range. -/
theorem clamped_near {low high slew value : ℝ} (nonneg : 0 ≤ slew)
    (range : low ≤ value ∧ value ≤ high) (wanted : ℝ) :
    |max low (min high (value + max (-slew) (min slew wanted))) - value| ≤ slew := by
  have least : -slew ≤ max (-slew) (min slew wanted) := le_max_left _ _
  have most : max (-slew) (min slew wanted) ≤ slew :=
    max_le (by linarith) (min_le_left _ _)
  generalize max (-slew) (min slew wanted) = change at least most
  rw [abs_le]
  constructor
  · have below : value - slew ≤ min high (value + change) :=
      le_min (by linarith [range.2]) (by linarith)
    linarith [le_max_right low (min high (value + change))]
  · have above : max low (min high (value + change)) ≤ value + slew :=
      max_le (by linarith [range.1]) ((min_le_right _ _).trans (by linarith))
    linarith

theorem step_slew (sound : gov.cfg.Sound)
    (range : gov.cfg.thetaFloor ≤ gov.theta ∧ gov.theta ≤ gov.cfg.thetaCeiling) :
    |gov.step.theta - gov.theta| ≤ gov.cfg.slewMax :=
  clamped_near sound.slew range _

/-- Within the budget the control law leaves the floor where it is. -/
theorem step_calm (sound : gov.cfg.Sound) (floor : gov.theta = gov.cfg.thetaFloor)
    (within : gov.rate ≤ gov.cfg.highRate) : gov.step.theta = gov.cfg.thetaFloor := by
  have low : ¬ gov.cfg.budgetPerS * (1 + gov.cfg.deadband) < gov.rate := not_lt.mpr within
  have still : max (-gov.cfg.slewMax) (min gov.cfg.slewMax 0) = 0 := by
    rw [min_eq_right sound.slew, max_eq_right (by linarith [sound.slew])]
  simp only [AdmissionGovernor.step, if_neg low, floor, sub_self, neg_zero, zero_mul, ite_self,
    still, add_zero, min_eq_right sound.range, max_self]

theorem rate_next_first (uncalled : gov.lastT = none)
    (governed : ¬ AdmissionGovernor.Bypasses call.sourceClass) :
    (gov.next realMath call).rate = gov.rate := by
  rw [AdmissionGovernor.next, AdmissionGovernor.admitCall, AdmissionGovernor.admits,
    if_neg governed, uncalled]
  rfl

theorem rate_next_nonneg (sound : gov.cfg.Sound) (nonneg : 0 ≤ gov.rate)
    (governed : ¬ AdmissionGovernor.Bypasses call.sourceClass) :
    0 ≤ (gov.next realMath call).rate := by
  cases called : gov.lastT with
  | none => rwa [rate_next_first called governed]
  | some last =>
    rw [rate_next called governed]
    exact estimate_nonneg (GovernorConfig.decayRate_pos sound) (gap_pos gov call) nonneg _

/-- A sample at the pace of the budget keeps the rate within it: the new rate lies
between the old one and the sample. -/
theorem rate_next_le (sound : gov.cfg.Sound) (within : gov.rate ≤ gov.cfg.highRate)
    (paced : Paced (1 / gov.cfg.highRate) gov call)
    (governed : ¬ AdmissionGovernor.Bypasses call.sourceClass) :
    (gov.next realMath call).rate ≤ gov.cfg.highRate := by
  cases called : gov.lastT with
  | none => rwa [rate_next_first called governed]
  | some last =>
    have high := GovernorConfig.highRate_pos sound
    have wide : 1 / gov.cfg.highRate ≤ gov.gap call := by
      rw [AdmissionGovernor.gap, called]
      exact (paced governed last called).trans (le_max_left _ _)
    rw [rate_next called governed]
    exact estimate_le (GovernorConfig.decayRate_pos sound) (gap_pos gov call) within high.le
      ((one_div_le high (gap_pos gov call)).mp wide) _

theorem withinLimits_next (sound : cfg.Sound) (within : WithinLimits cfg gov)
    (call : AdmitCall ℝ) : WithinLimits cfg (gov.next realMath call) := by
  obtain ⟨rfl, range, rate⟩ := within
  by_cases bypasses : AdmissionGovernor.Bypasses call.sourceClass
  · rw [next_bypassing bypasses]
    exact ⟨rfl, range, rate⟩
  · have nonneg := rate_next_nonneg sound rate bypasses
    refine ⟨cfg_next, range_next gov call sound bypasses, nonneg⟩

theorem slewLimited_next (sound : cfg.Sound) (within : WithinLimits cfg gov)
    (call : AdmitCall ℝ) : SlewLimited gov call := by
  obtain ⟨rfl, range, rate⟩ := within
  rw [SlewLimited]
  by_cases bypasses : AdmissionGovernor.Bypasses call.sourceClass
  · rw [next_bypassing bypasses, sub_self, abs_zero]
    exact sound.slew
  · rw [next_eq_step bypasses]
    let counted := { gov with rate := (gov.next realMath call).rate, lastT := some call.now }
    have unchanged : counted.cfg.Sound := sound
    exact step_slew unchanged range

theorem calm_next (sound : cfg.Sound) (calm : Calm cfg gov)
    (paced : Paced (1 / cfg.highRate) gov call) : Calm cfg (gov.next realMath call) := by
  obtain ⟨rfl, floor, within⟩ := calm
  by_cases bypasses : AdmissionGovernor.Bypasses call.sourceClass
  · rw [next_bypassing bypasses]
    exact ⟨rfl, floor, within⟩
  · have less := rate_next_le sound within paced bypasses
    refine ⟨cfg_next, ?_, less⟩
    rw [next_eq_step bypasses]
    let counted := { gov with rate := (gov.next realMath call).rate, lastT := some call.now }
    have unchanged : counted.cfg.Sound := sound
    exact step_calm unchanged floor less

theorem Calm.admits (calm : Calm cfg gov) (call : AdmitCall ℝ) : AdmitsFloor cfg gov call := by
  intro relevant
  by_cases bypasses : AdmissionGovernor.Bypasses call.sourceClass
  · rw [admit_bypassing bypasses]
  · rw [admit_governed bypasses, calm.theta]
    exact decide_eq_true relevant

end Control

/-- Spaced calls are paced: the governor remembers the last one it saw. -/
theorem along_paced {gap : ℝ} {gov : AdmissionGovernor ℝ} {calls : List (AdmitCall ℝ)}
    (spaced : Spaced gap (gov.lastT.toList ++ governedTimes calls)) :
    Along (AdmissionGovernor.next realMath) (Paced gap) gov calls := by
  induction calls generalizing gov with
  | nil => trivial
  | cons call rest ih =>
    by_cases bypasses : AdmissionGovernor.Bypasses call.sourceClass
    · have same : governedTimes (call :: rest) = governedTimes rest := by
        simp [governedTimes, bypasses]
      rw [same] at spaced
      refine ⟨fun governed => absurd bypasses governed, ?_⟩
      rw [next_bypassing bypasses]
      exact ih spaced
    · have first : governedTimes (call :: rest) = call.now :: governedTimes rest := by
        simp [governedTimes, bypasses]
      rw [first] at spaced
      have remembers : (gov.next realMath call).lastT = some call.now := lastT_next bypasses
      refine ⟨fun _ last called => ?_, ih ?_⟩
      · rw [Option.mem_def.mp called] at spaced
        exact (List.isChain_cons_cons.mp spaced).1
      · rw [remembers]
        exact spaced.right_of_append

/-- For any sound settings and any calls the governor keeps its limits, and at the pace of
the budget it stays at its floor. -/
theorem governor_steady {cfg : GovernorConfig ℝ} (sound : cfg.Sound) (calls : List (AdmitCall ℝ)) :
    Always (AdmissionGovernor.next realMath) (WithinLimits cfg) { cfg } calls ∧
      Along (AdmissionGovernor.next realMath) SlewLimited { cfg } calls ∧
        (Spaced (1 / cfg.highRate) (governedTimes calls) →
          Always (AdmissionGovernor.next realMath) (fun gov => gov.theta = cfg.thetaFloor)
            { cfg } calls ∧
          Along (AdmissionGovernor.next realMath) (AdmitsFloor cfg) { cfg } calls) := by
  have every : Along (AdmissionGovernor.next realMath) (fun _ _ => True) { cfg } calls :=
    along_of_forall fun _ _ => trivial
  have start : WithinLimits cfg { cfg } := ⟨rfl, ⟨le_refl _, sound.range⟩, le_refl 0⟩
  have limits : ∀ gov call, WithinLimits cfg gov → True →
      WithinLimits cfg (gov.next realMath call) :=
    fun _ call within _ => withinLimits_next sound within call
  refine ⟨every.always _ start limits, every.consequence _ start limits
    fun gov call within _ => slewLimited_next sound within call, fun spaced => ?_⟩
  have paced : Along (AdmissionGovernor.next realMath) (Paced (1 / cfg.highRate)) { cfg } calls :=
    along_paced spaced
  have calm : Calm cfg { cfg } := ⟨rfl, rfl, (GovernorConfig.highRate_pos sound).le⟩
  have stays : ∀ gov call, Calm cfg gov → Paced (1 / cfg.highRate) gov call →
      Calm cfg (gov.next realMath call) :=
    fun _ _ calm paced => calm_next sound calm paced
  constructor
  · exact fun before initial => (paced.always (Calm cfg) calm stays before initial).theta
  · exact paced.consequence (Calm cfg) calm stays fun gov call calm _ => calm.admits call

/-- Two posts a second apart, and an official notice between them. -/
theorem governor_steady_pair :
    Always (AdmissionGovernor.next realMath) (fun gov => gov.theta = defaults.thetaFloor)
      { cfg := defaults } [⟨0, .social, 0⟩, ⟨1 / 2, .authoritative, 1 / 2⟩, ⟨1 / 2, .social, 1⟩] := by
  have spaced : Spaced (1 / defaults.highRate)
      (governedTimes [⟨0, .social, 0⟩, ⟨1 / 2, .authoritative, 1 / 2⟩, ⟨1 / 2, .social, 1⟩]) := by
    have high : 1 ≤ defaults.highRate := by
      norm_num [defaults, AdmissionGovernor.initial, GovernorConfig.highRate,
        GovernorConfig.budgetPerS, hundredths]
    have short : 1 / defaults.highRate ≤ 1 := (div_le_one (by linarith)).mpr high
    have times : governedTimes [⟨0, .social, 0⟩, ⟨1 / 2, .authoritative, 1 / 2⟩,
        ⟨1 / 2, .social, 1⟩] = [0, 1] := by
      simp [governedTimes, AdmissionGovernor.Bypasses]
    rw [times, Spaced, List.isChain_pair, sub_zero]
    exact short
  exact ((governor_steady GovernorConfig.sound_default _).2.2 spaced).1

end NewsAggregator.Enrich
