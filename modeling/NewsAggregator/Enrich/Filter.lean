import Mathlib.Algebra.Order.Field.Basic
import NewsAggregator.Dedup.Store
import NewsAggregator.Foundation.Counter
import NewsAggregator.Gazetteer.Matcher

/-! The cheap filter: gazetteer tally, exact dedup and relevance of every item. -/

namespace NewsAggregator.Enrich

open Foundation Dedup

/-- `_key`: the exact-dedup key. -/
def dedupKey (item : Item) : String := if item.contentHash ≠ "" then item.contentHash else item.text

theorem dedupKey_same {before after : Item} (same : SameReport before after) :
    dedupKey after = dedupKey before := by
  rw [dedupKey, same.contentHash, same.text, dedupKey]

/-- `tally`: every hit counts, and unique entities go onto the item. -/
def tally (py : Python) (gaz : Gazetteer) (item : Item) (mentions : Counter String) :
    Option (Item × Counter String) := do
  let hits ← gaz.matchText py item.text
  return (mergeEntities item hits, mentions.addAll (hits.map fun entity => py.casefold entity.text))

/-- The window handed off, and the fresh one. -/
def drainMentions (mentions : Counter String) : Counter String × Counter String :=
  (mentions, .empty)

section Relevance

variable {K : Type} [Field K] [LinearOrder K]

/-- The classifier's score with the cheap signals on the item; `none` where the
classifier raises. -/
def relevance (classifier : String → Option K) (item : Item) : Option K := do
  let score ← classifier item.text
  let score := if item.geo.isSome then score + hundredths 15 else score
  let score := if item.entities.isEmpty then score else score + hundredths 15
  return max 0 (min 1 score)

end Relevance

end NewsAggregator.Enrich
