import Mathlib.Algebra.Field.Rat
import Mathlib.Algebra.Order.Ring.Rat
import NewsAggregator.Python

/-! Coordinated inauthenticity of a Story, from four signals of its window, in exact
arithmetic. -/

namespace NewsAggregator.Score

structure InauthConfig where
  wAmplification : ℚ := hundredths 30
  wCopy : ℚ := hundredths 30
  wSync : ℚ := hundredths 20
  wLowRep : ℚ := hundredths 20
  minSocial : ℕ := 5
  repMinItems : ℕ := 3
  repBadShare : ℚ := hundredths 50
  flagThreshold : ℚ := hundredths 70

structure StorySignals where
  socialItems : ℕ
  independentOrigins : ℕ
  copyEdges : ℕ
  syncedItems : ℕ
  lowRepItems : ℕ

def clamp01 (x : ℚ) : ℚ := max 0 (min 1 x)

/-- `inauthenticity`, where the source rounds every step to a float. -/
def inauthenticity (cfg : InauthConfig) (sig : StorySignals) : ℚ :=
  if sig.socialItems < cfg.minSocial then 0
  else
    let amplification := clamp01 (1 - sig.independentOrigins / sig.socialItems)
    let copyDensity := clamp01 (sig.copyEdges / sig.socialItems)
    let synchronization := clamp01 (sig.syncedItems / sig.socialItems)
    let lowRep := clamp01 (sig.lowRepItems / sig.socialItems)
    clamp01 (cfg.wAmplification * amplification + cfg.wCopy * copyDensity +
      cfg.wSync * synchronization + cfg.wLowRep * lowRep)

end NewsAggregator.Score
