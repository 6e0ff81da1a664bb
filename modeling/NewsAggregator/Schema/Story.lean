import Mathlib.Order.Lattice

/-! Trust states and the corroboration constants of a Story. -/

namespace NewsAggregator

inductive TrustState
  | rumor
  | corroborated
  | primaryBacked
  deriving DecidableEq

def defaultNCorroboration : Nat := 3
def minCorroborationSources : Nat := 2

/-- `_RANK`: the order in which a Story is promoted. -/
def TrustState.rank : TrustState → Nat
  | .rumor => 0
  | .corroborated => 1
  | .primaryBacked => 2

theorem TrustState.rank_injective {first second : TrustState} (same : first.rank = second.rank) :
    first = second := by
  cases first <;> cases second <;> first | rfl | cases same

instance : LinearOrder TrustState :=
  LinearOrder.lift' TrustState.rank fun _ _ => TrustState.rank_injective

end NewsAggregator
