import Mathlib.Algebra.Order.Field.Basic
import NewsAggregator.Python
import NewsAggregator.Schema.Item

/-! Adaptive admission control: an AIMD loop on the admission threshold holds the
rate of governed survivors at the embed budget. -/

namespace NewsAggregator.Enrich

variable {K : Type} [Field K] [LinearOrder K]

/-- The functions of `math` the control law calls. -/
structure MathFns (K : Type) where
  exp : K → K
  log : K → K

structure GovernorConfig (K : Type) [Field K] where
  capPerDay : ℕ := 400000
  ewmaHalflifeS : K := 600
  deadband : K := hundredths 10
  thetaFloor : K := 0
  thetaCeiling : K := hundredths 99
  additiveStep : K := hundredths 2
  relaxRate : K := hundredths 5
  slewMax : K := hundredths 5
  exploreRate : K := hundredths 2

def GovernorConfig.budgetPerS (cfg : GovernorConfig K) : K := cfg.capPerDay / 86400

structure AdmissionGovernor (K : Type) [Field K] where
  cfg : GovernorConfig K := {}
  theta : K := cfg.thetaFloor
  /-- The average rate of governed survivors per second. -/
  rate : K := 0
  lastT : Option K := none

namespace AdmissionGovernor

def initial : AdmissionGovernor K := {}

def samplingActive (gov : AdmissionGovernor K) : Bool :=
  gov.cfg.thetaFloor + 1 / 1000000000 < gov.theta

def atCeiling (gov : AdmissionGovernor K) : Bool :=
  gov.cfg.thetaCeiling - 1 / 1000000000 ≤ gov.theta

/-- The exploration quota, on what `random` drew. -/
def explore (gov : AdmissionGovernor K) (random : K) : Bool :=
  if gov.atCeiling then false else random < gov.cfg.exploreRate

def decay (math : MathFns K) (gov : AdmissionGovernor K) (dt : K) : K :=
  math.exp (-dt * math.log 2 / gov.cfg.ewmaHalflifeS)

/-- `_step`: the control law. -/
def step (gov : AdmissionGovernor K) : AdmissionGovernor K :=
  let cfg := gov.cfg
  let hi := cfg.budgetPerS * (1 + cfg.deadband)
  let lo := cfg.budgetPerS * (1 - cfg.deadband)
  let change :=
    if hi < gov.rate then cfg.additiveStep
    else if gov.rate < lo then -(gov.theta - cfg.thetaFloor) * cfg.relaxRate
    else 0
  let change := max (-cfg.slewMax) (min cfg.slewMax change)
  { gov with theta := max cfg.thetaFloor (min cfg.thetaCeiling (gov.theta + change)) }

/-- The classes that pass the governor by. -/
def Bypasses (sourceClass : SourceClass) : Prop :=
  sourceClass = .authoritative ∨ sourceClass = .primary

instance : DecidablePred Bypasses := fun _ => inferInstanceAs (Decidable (_ ∨ _))

def admits (math : MathFns K) (gov : AdmissionGovernor K) (relevance : K)
    (sourceClass : SourceClass) (now : K) : Bool × AdmissionGovernor K :=
  if Bypasses sourceClass then (true, gov)
  else
    let admitted : Bool := gov.theta ≤ relevance
    let rate :=
      match gov.lastT with
      | none => gov.rate
      | some last =>
        let dt := max (now - last) (1 / 1000000)
        let decay := gov.decay math dt
        let sample := if admitted then 1 / dt else 0
        decay * gov.rate + (1 - decay) * sample
    (admitted, { gov with rate, lastT := some now }.step)

end AdmissionGovernor

end NewsAggregator.Enrich
