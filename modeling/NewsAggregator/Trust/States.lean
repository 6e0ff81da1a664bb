import NewsAggregator.Schema.Story

/-! The promotion rule: the state the evidence implies, floored at the current
one. -/

namespace NewsAggregator.Trust

def nextState (current : TrustState) (origins : Nat)
    (distinctSources : Nat := minCorroborationSources) (primaryMatched : Bool := false)
    (n : Nat := defaultNCorroboration) (minSources : Nat := minCorroborationSources) :
    TrustState :=
  let implied :=
    if primaryMatched then .primaryBacked
    else if n ≤ origins ∧ minSources ≤ distinctSources then .corroborated
    else .rumor
  if current.rank < implied.rank then implied else current

/-- As a pure function the rule never demotes. -/
theorem le_nextState (current : TrustState) (origins distinctSources : Nat)
    (primaryMatched : Bool) (n minSources : Nat) :
    current ≤ nextState current origins distinctSources primaryMatched n minSources := by
  change current.rank ≤ (nextState _ _ _ _ _ _).rank
  unfold nextState
  generalize (if primaryMatched then TrustState.primaryBacked
    else if n ≤ origins ∧ minSources ≤ distinctSources then .corroborated else .rumor) = implied
  dsimp only
  split <;> omega

/-- A rumor becomes corroborated only past both floors. -/
theorem nextState_corroborated {origins distinctSources n minSources : Nat} {primaryMatched : Bool}
    (promoted : nextState .rumor origins distinctSources primaryMatched n minSources =
      .corroborated) : n ≤ origins ∧ minSources ≤ distinctSources := by
  unfold nextState at promoted
  cases primaryMatched with
  | true => simp [TrustState.rank] at promoted
  | false =>
    by_cases floors : n ≤ origins ∧ minSources ≤ distinctSources
    · exact floors
    · simp [floors, TrustState.rank] at promoted

end NewsAggregator.Trust
