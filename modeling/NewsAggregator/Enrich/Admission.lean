import Mathlib.Algebra.Field.Rat
import Mathlib.Algebra.Order.Ring.Rat
import Mathlib.Tactic.NormNum.Ineq
import NewsAggregator.Enrich.Governor
import NewsAggregator.Foundation.Run

/-! Sequences of calls of `admit`, and which of them count against the budget. -/

namespace NewsAggregator.Enrich

open Foundation

structure AdmitCall (K : Type) where
  relevance : K
  sourceClass : SourceClass
  now : K

variable {K : Type} [Field K] [LinearOrder K]

namespace AdmissionGovernor

def admitCall (math : MathFns K) (gov : AdmissionGovernor K) (call : AdmitCall K) :
    Bool × AdmissionGovernor K :=
  gov.admits math call.relevance call.sourceClass call.now

/-- The governor a call leaves. -/
def next (math : MathFns K) (gov : AdmissionGovernor K) (call : AdmitCall K) :
    AdmissionGovernor K := (gov.admitCall math call).2

/-- Every call with its decision. -/
def decisions (math : MathFns K) : AdmissionGovernor K → List (AdmitCall K) →
    List (AdmitCall K × Bool)
  | _, [] => []
  | gov, call :: rest =>
    (call, (gov.admitCall math call).1) :: decisions math (gov.next math call) rest

end AdmissionGovernor

def socialOnly (calls : List (AdmitCall K)) : List (AdmitCall K) :=
  calls.filter fun call => call.sourceClass = .social

/-- The social calls are decided as they are without the others, which all pass. -/
structure Uninfluenced (math : MathFns K) (gov : AdmissionGovernor K)
    (calls : List (AdmitCall K)) : Prop where
  decisions : ((gov.decisions math calls).filter fun decision => decision.1.sourceClass = .social) =
    gov.decisions math (socialOnly calls)
  theta : (run (AdmissionGovernor.next math) gov calls).theta =
    (run (AdmissionGovernor.next math) gov (socialOnly calls)).theta
  rate : (run (AdmissionGovernor.next math) gov calls).rate =
    (run (AdmissionGovernor.next math) gov (socialOnly calls)).rate
  passed : ∀ decision ∈ gov.decisions math calls, decision.1.sourceClass ≠ .social →
    decision.2 = true

section Governor

variable {math : MathFns K} {gov : AdmissionGovernor K} {call : AdmitCall K}

theorem admit_bypassing (bypasses : AdmissionGovernor.Bypasses call.sourceClass) :
    gov.admitCall math call = (true, gov) := if_pos bypasses

theorem next_bypassing (bypasses : AdmissionGovernor.Bypasses call.sourceClass) :
    gov.next math call = gov := congrArg Prod.snd (admit_bypassing bypasses)

theorem admit_governed (governed : ¬ AdmissionGovernor.Bypasses call.sourceClass) :
    (gov.admitCall math call).1 = decide (gov.theta ≤ call.relevance) := by
  rw [AdmissionGovernor.admitCall, AdmissionGovernor.admits, if_neg governed]

theorem governed_of_social {sourceClass : SourceClass} (social : sourceClass = .social) :
    ¬ AdmissionGovernor.Bypasses sourceClass := by
  rw [social]
  decide

theorem admit_social (social : call.sourceClass = .social) :
    (gov.admitCall math call).1 = decide (gov.theta ≤ call.relevance) :=
  admit_governed (governed_of_social social)

theorem cfg_next : (gov.next math call).cfg = gov.cfg := by
  rw [AdmissionGovernor.next, AdmissionGovernor.admitCall, AdmissionGovernor.admits]
  split <;> rfl

theorem floor_le_step (gov : AdmissionGovernor K) : gov.cfg.thetaFloor ≤ gov.step.theta := by
  simp only [AdmissionGovernor.step]
  exact le_max_left _ _

theorem floor_le_next (above : gov.cfg.thetaFloor ≤ gov.theta) :
    gov.cfg.thetaFloor ≤ (gov.next math call).theta := by
  rw [AdmissionGovernor.next, AdmissionGovernor.admitCall, AdmissionGovernor.admits]
  split
  · exact above
  · exact floor_le_step { gov with rate := _, lastT := some call.now }

/-- Calls whose class is social or passes the governor by. -/
theorem uninfluenced_of_classes {calls : List (AdmitCall K)}
    (classes : ∀ call ∈ calls, call.sourceClass = .social ∨
      AdmissionGovernor.Bypasses call.sourceClass) : Uninfluenced math gov calls := by
  induction calls generalizing gov with
  | nil => exact ⟨rfl, rfl, rfl, by simp [AdmissionGovernor.decisions]⟩
  | cons call rest ih =>
    have later := fun other member => classes other (List.mem_cons_of_mem call member)
    by_cases social : call.sourceClass = .social
    · obtain ⟨decided, theta, rate, passed⟩ : Uninfluenced math (gov.next math call) rest :=
        ih later
      have kept : socialOnly (call :: rest) = call :: socialOnly rest := by
        simp [socialOnly, social]
      refine ⟨?_, ?_, ?_, ?_⟩
      · simp [kept, AdmissionGovernor.decisions, social, decided]
      · simpa [kept] using theta
      · simpa [kept] using rate
      · intro decision member other
        rcases List.mem_cons.mp member with rfl | old
        · exact absurd social other
        · exact passed decision old other
    · have bypasses := (classes call List.mem_cons_self).resolve_left social
      obtain ⟨decided, theta, rate, passed⟩ : Uninfluenced math gov rest := ih later
      have dropped : socialOnly (call :: rest) = socialOnly rest := by
        simp [socialOnly, social]
      refine ⟨?_, ?_, ?_, ?_⟩
      · simp [dropped, AdmissionGovernor.decisions, social, next_bypassing bypasses, decided]
      · simpa [dropped, next_bypassing bypasses] using theta
      · simpa [dropped, next_bypassing bypasses] using rate
      · intro decision member other
        rw [AdmissionGovernor.decisions, next_bypassing bypasses,
          admit_bypassing bypasses] at member
        rcases List.mem_cons.mp member with rfl | old
        · rfl
        · exact passed decision old other

/-- A call below the floor does not pass unless its class passes the governor by. -/
theorem refused_below_floor {calls : List (AdmitCall K)}
    (above : gov.cfg.thetaFloor ≤ gov.theta)
    (low : ∀ call ∈ calls, call.relevance < gov.cfg.thetaFloor)
    {decision : AdmitCall K × Bool} (member : decision ∈ gov.decisions math calls)
    (governed : ¬ AdmissionGovernor.Bypasses decision.1.sourceClass) : decision.2 = false := by
  induction calls generalizing gov with
  | nil => cases member
  | cons call rest ih =>
    rcases List.mem_cons.mp member with rfl | old
    · rw [admit_governed governed, decide_eq_false_iff_not, not_le]
      exact (low call List.mem_cons_self).trans_le above
    · have same : (gov.next math call).cfg = gov.cfg := cfg_next
      have kept : (gov.next math call).cfg.thetaFloor ≤ (gov.next math call).theta := by
        rw [same]
        exact floor_le_next above
      refine ih kept ?_ old
      intro other present
      rw [same]
      exact low other (List.mem_cons_of_mem call present)

end Governor

/-- The governor whose every governed call with the lower relevance is refused. -/
def shutGovernor (K : Type) [Field K] [LinearOrder K] : AdmissionGovernor K where
  cfg := { (AdmissionGovernor.initial : AdmissionGovernor K).cfg with
    thetaFloor := max 0 1, thetaCeiling := max 0 1 }

theorem map_fst_decisions (math : MathFns K) (gov : AdmissionGovernor K)
    (calls : List (AdmitCall K)) : (gov.decisions math calls).map Prod.fst = calls := by
  induction calls generalizing gov with
  | nil => rfl
  | cons call rest ih => rw [AdmissionGovernor.decisions, List.map_cons, ih]

/-- Whatever the governor, the relevances and the times, the other classes leave the
social calls alone exactly if each of them passes the governor by. -/
theorem uninfluenced_iff (math : MathFns K) (classes : List SourceClass) :
    (∀ gov calls, calls.map AdmitCall.sourceClass = classes → Uninfluenced math gov calls) ↔
      ∀ sourceClass ∈ classes, sourceClass = .social ∨
        AdmissionGovernor.Bypasses sourceClass := by
  constructor
  · intro uninfluenced sourceClass member
    by_contra governed
    rw [not_or] at governed
    let calls : List (AdmitCall K) := classes.map fun sourceClass => ⟨min 0 1, sourceClass, 0⟩
    have named : calls.map AdmitCall.sourceClass = classes := by
      simp [calls, Function.comp_def]
    have low : ∀ call ∈ calls, call.relevance < (shutGovernor K).cfg.thetaFloor := by
      intro call present
      obtain ⟨_, _, rfl⟩ := List.mem_map.mp present
      exact min_lt_max.mpr zero_ne_one
    have called : (⟨min 0 1, sourceClass, 0⟩ : AdmitCall K) ∈
        ((shutGovernor K).decisions math calls).map Prod.fst := by
      rw [map_fst_decisions]
      exact List.mem_map_of_mem member
    obtain ⟨decision, decided, same⟩ := List.mem_map.mp called
    have refused := refused_below_floor (le_refl _) low decided (by rw [same]; exact governed.2)
    have passed := (uninfluenced (shutGovernor K) calls named).passed decision decided
      (by rw [same]; exact governed.1)
    rw [refused] at passed
    cases passed
  · rintro allowed gov calls rfl
    exact uninfluenced_of_classes fun call member => allowed _ (List.mem_map_of_mem member)

/-- A mainstream report after an overload is refused. -/
theorem mainstream_governed : ¬ Uninfluenced (K := ℚ) ⟨fun _ => 1, fun _ => 0⟩
    { theta := hundredths 50 } [⟨hundredths 30, .mainstream, 0⟩] := by
  intro uninfluenced
  have low : ¬ (hundredths 50 : ℚ) ≤ hundredths 30 := by
    norm_num [hundredths]
  have passed := uninfluenced.passed (⟨hundredths 30, .mainstream, 0⟩, false)
    (by rw [AdmissionGovernor.decisions, admit_governed (by decide), decide_eq_false low]
        exact List.mem_cons_self) (by decide)
  cases passed

end NewsAggregator.Enrich
