import Mathlib.Algebra.Order.Ring.Defs
import NewsAggregator.Foundation.Counter
import NewsAggregator.Schema.Item

/-! The tally flush of an enrich replica, validated on construction. -/

namespace NewsAggregator

def maxTallyEntities : ℕ := 4096
def maxTallyKeyLen : ℕ := 256

structure TallyFlush (K : Type) [Semiring K] [LinearOrder K] where
  bucketTs : Int
  counts : List (String × ℕ) := []
  samplingActive : Bool := false
  theta : K := 0
  replica : String := ""
  flushedAt : Int
  distinct : (counts.map Prod.fst).Nodup
  countsCap : counts.length ≤ maxTallyEntities
  keysCap : ∀ entry ∈ counts, entry.1 ≠ "" ∧ entry.1.length ≤ maxTallyKeyLen
  thetaRange : 0 ≤ theta ∧ theta ≤ 1
  replicaCap : replica.length ≤ 128

/-- The checks of the schema; `none` where it rejects the flush. -/
def TallyFlush.validate {K : Type} [Semiring K] [LinearOrder K] (bucketTs : Int)
    (counts : Foundation.Counter String) (samplingActive : Bool) (theta : K) (replica : String)
    (flushedAt : Int) : Option (TallyFlush K) :=
  if checks : counts.entries.length ≤ maxTallyEntities ∧
      (∀ entry ∈ counts.entries, entry.1 ≠ "" ∧ entry.1.length ≤ maxTallyKeyLen) ∧
      (0 ≤ theta ∧ theta ≤ 1) ∧ replica.length ≤ 128 then
    some {
      bucketTs, counts := counts.entries, samplingActive, theta, replica, flushedAt
      distinct := counts.distinct
      countsCap := checks.1
      keysCap := checks.2.1
      thetaRange := checks.2.2.1
      replicaCap := checks.2.2.2 }
  else none

end NewsAggregator
