import NewsAggregator.Bus.Client
import NewsAggregator.Enrich.Filter
import NewsAggregator.Enrich.Governor

/-! `Inference.handle`: tally, dedup, admission, entities and embedding of one
item, and the publish of what survives. -/

namespace NewsAggregator.Enrich

open Foundation Dedup Bus

variable {K σ : Type} [Field K] [LinearOrder K]

/-- The parts of an enrich worker that stay the same over a run. -/
structure Worker (K σ : Type) where
  py : Python
  math : MathFns K
  dedup : Deduper σ
  gazetteer : Gazetteer
  pub : ScopedPublisher := { allowedPrefix := "enriched.", maxMsgBytes := 81920 }
  /-- Bytes of `model_dump_json`. -/
  jsonSize : EnrichedItem → ℕ

structure Inference (K σ : Type) [Field K] where
  dedup : σ
  mentions : Counter String := .empty
  gov : AdmissionGovernor K := .initial
  published : ℕ := 0
  shed : ℕ := 0
  explored : ℕ := 0

/-- What one call meets: the live classifier, the clock, the coin, the models and
the broker. A model that raises answers `none`. -/
structure Attempt (K : Type) where
  classifier : String → Option K
  now : K
  random : K
  ner : String → Option (List Entity)
  encode : String → Option Embedding
  sent : Bool := true

/-- How a call of the handler returns. -/
inductive Fate
  | duplicate
  | shed
  | published (subject : String) (enriched : EnrichedItem)

/-- The admission gate: the `exploration` flag of an item that passes. -/
def gate (math : MathFns K) (gov : AdmissionGovernor K) (attempt : Attempt K) (relevance : K)
    (sourceClass : SourceClass) : Option Bool × AdmissionGovernor K :=
  let (admitted, after) := gov.admits math relevance sourceClass attempt.now
  if admitted then (some false, after)
  else if after.explore attempt.random then (some true, after)
  else (none, after)

/-- Entities, embedding and publish of an item that passed. -/
def Worker.enrich (worker : Worker K σ) (attempt : Attempt K) (item : Item) (exploration : Bool) :
    Option (String × EnrichedItem) := do
  let found ← attempt.ner item.text
  let item := mergeEntities item found
  let vec ← attempt.encode item.text
  let enriched : EnrichedItem := { item, embedding := vec, exploration }
  let subject := "enriched." ++ item.source
  if worker.pub.publish subject (worker.jsonSize enriched) attempt.sent then
    some (subject, enriched)
  else none

/-- `handle`; `none` where it raises. -/
def Worker.handle (worker : Worker K σ) (attempt : Attempt K) (item : Item)
    (inf : Inference K σ) : Option Fate × Inference K σ :=
  match tally worker.py worker.gazetteer item inf.mentions with
  | none => (none, inf)
  | some (item, mentions) =>
    let (duplicate, dedup) := worker.dedup.seen (dedupKey item) inf.dedup
    let inf := { inf with mentions, dedup }
    if duplicate then (some .duplicate, inf)
    else
      match relevance attempt.classifier item with
      | none => (none, inf)
      | some relevance =>
        let (passed, gov) := gate worker.math inf.gov attempt relevance item.sourceClass
        let inf := { inf with gov }
        match passed with
        | none => (some .shed, { inf with shed := inf.shed + 1 })
        | some exploration =>
          let inf := if exploration then { inf with explored := inf.explored + 1 } else inf
          match worker.enrich attempt item exploration with
          | none => (none, inf)
          | some (subject, enriched) =>
            (some (.published subject enriched), { inf with published := inf.published + 1 })

section Inversion

variable (worker : Worker K σ) (attempt : Attempt K) (item : Item) (inf : Inference K σ)

/-- All ways a call of the handler can go, with what it leaves behind. -/
inductive Handled : Option Fate → Inference K σ → Prop where
  | untallied (rejected : tally worker.py worker.gazetteer item inf.mentions = none) :
      Handled none inf
  | duplicate {merged : Item} {mentions : Counter String}
      (tallied : tally worker.py worker.gazetteer item inf.mentions = some (merged, mentions))
      (known : worker.dedup.knows inf.dedup (dedupKey item) = true) :
      Handled (some .duplicate) { inf with mentions }
  | unscored {merged : Item} {mentions : Counter String}
      (tallied : tally worker.py worker.gazetteer item inf.mentions = some (merged, mentions))
      (fresh : worker.dedup.knows inf.dedup (dedupKey item) = false)
      (raised : relevance attempt.classifier merged = none) :
      Handled none { inf with mentions, dedup := worker.dedup.record (dedupKey item) inf.dedup }
  | shed {merged : Item} {mentions : Counter String} {score : K} {gov : AdmissionGovernor K}
      (tallied : tally worker.py worker.gazetteer item inf.mentions = some (merged, mentions))
      (fresh : worker.dedup.knows inf.dedup (dedupKey item) = false)
      (scored : relevance attempt.classifier merged = some score)
      (gated : gate worker.math inf.gov attempt score merged.sourceClass = (none, gov)) :
      Handled (some .shed)
        { inf with
          mentions
          dedup := worker.dedup.record (dedupKey item) inf.dedup
          gov
          shed := inf.shed + 1 }
  | lost {merged : Item} {mentions : Counter String} {score : K} {gov : AdmissionGovernor K}
      {exploration : Bool} {explored : ℕ}
      (tallied : tally worker.py worker.gazetteer item inf.mentions = some (merged, mentions))
      (fresh : worker.dedup.knows inf.dedup (dedupKey item) = false)
      (scored : relevance attempt.classifier merged = some score)
      (gated : gate worker.math inf.gov attempt score merged.sourceClass = (some exploration, gov))
      (raised : worker.enrich attempt merged exploration = none) :
      Handled none
        { inf with mentions, dedup := worker.dedup.record (dedupKey item) inf.dedup, gov, explored }
  | published {merged : Item} {mentions : Counter String} {score : K} {gov : AdmissionGovernor K}
      {exploration : Bool} {explored : ℕ} {subject : String} {enriched : EnrichedItem}
      (tallied : tally worker.py worker.gazetteer item inf.mentions = some (merged, mentions))
      (fresh : worker.dedup.knows inf.dedup (dedupKey item) = false)
      (scored : relevance attempt.classifier merged = some score)
      (gated : gate worker.math inf.gov attempt score merged.sourceClass = (some exploration, gov))
      (sent : worker.enrich attempt merged exploration = some (subject, enriched)) :
      Handled (some (.published subject enriched))
        { inf with
          mentions
          dedup := worker.dedup.record (dedupKey item) inf.dedup
          gov
          published := inf.published + 1
          explored }

variable {worker attempt item inf}

theorem tally_same {py : Python} {gaz : Gazetteer} {mentions after : Counter String}
    {merged : Item} (tallied : tally py gaz item mentions = some (merged, after)) :
    SameReport item merged := by
  obtain ⟨hits, _, same⟩ := Option.bind_eq_some_iff.mp tallied
  cases same
  exact mergeEntities_same item hits

theorem handle_handled (worker : Worker K σ) (attempt : Attempt K) (item : Item)
    (inf : Inference K σ) : Handled worker attempt item inf (worker.handle attempt item inf).1
      (worker.handle attempt item inf).2 := by
  unfold Worker.handle
  cases tallied : tally worker.py worker.gazetteer item inf.mentions with
  | none => exact .untallied tallied
  | some pair =>
    obtain ⟨merged, mentions⟩ := pair
    have key := dedupKey_same (tally_same tallied)
    dsimp only [Deduper.seen]
    rw [key]
    cases known : worker.dedup.knows inf.dedup (dedupKey item) with
    | true => exact .duplicate tallied known
    | false =>
      simp only [Bool.false_eq_true, if_false]
      cases scored : relevance attempt.classifier merged with
      | none => exact .unscored tallied known scored
      | some score =>
        dsimp only
        cases gated : gate worker.math inf.gov attempt score merged.sourceClass with
        | mk passed gov =>
          cases passed with
          | none => exact .shed tallied known scored gated
          | some exploration =>
            dsimp only
            cases sent : worker.enrich attempt merged exploration with
            | none => cases exploration <;> exact .lost tallied known scored gated sent
            | some message =>
              cases exploration <;> exact .published tallied known scored gated sent

omit [Field K] [LinearOrder K] in
/-- The message an item is published in names its source and keeps its report. -/
theorem enrich_spec {merged : Item} {exploration : Bool} {subject : String}
    {enriched : EnrichedItem}
    (sent : worker.enrich attempt merged exploration = some (subject, enriched)) :
    subject = "enriched." ++ merged.source ∧ SameReport merged enriched.item ∧
      enriched.exploration = exploration := by
  obtain ⟨found, _, rest⟩ := Option.bind_eq_some_iff.mp sent
  obtain ⟨vec, _, rest⟩ := Option.bind_eq_some_iff.mp rest
  have same := mergeEntities_same merged found
  dsimp only at rest
  split at rest
  · cases rest
    exact ⟨by rw [same.source], same, rfl⟩
  · cases rest

end Inversion

end NewsAggregator.Enrich
