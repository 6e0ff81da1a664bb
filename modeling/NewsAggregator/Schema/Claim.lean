import NewsAggregator.Schema.Item

/-! The messages of the claim queue: what the cluster service asks for and what
the claim extractor answers. -/

namespace NewsAggregator

structure ClaimRequest where
  storyId : Uuid
  itemId : Uuid
  text : String
  textCap : text.length ≤ maxTextLen

structure ClaimResult where
  storyId : Uuid
  itemId : Uuid
  claim : String := ""
  claimCap : claim.length ≤ 2048

end NewsAggregator
