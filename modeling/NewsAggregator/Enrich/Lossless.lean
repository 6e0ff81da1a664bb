import NewsAggregator.Enrich.Consumer

/-! No item is lost between INGEST and ENRICHED: what a failed attempt does to
the redelivery of its message. -/

namespace NewsAggregator.Enrich

open Foundation Dedup Bus

variable {K σ : Type} [Field K] [LinearOrder K]

/-- An item with the key was published, or shed and not explored. -/
def Settled (system : System K σ) (key : String) : Prop :=
  key ∈ system.enriched.map (fun message => dedupKey message.2.item) ∨ key ∈ system.declined

omit [LinearOrder K] in
instance (system : System K σ) : DecidablePred (Settled system) :=
  fun key => inferInstanceAs (Decidable (_ ∨ key ∈ system.declined))

/-- The handler drops the item as a duplicate. -/
def Drops (d : Deployment K σ) (attempt : Attempt K) (item : Item) (inf : Inference K σ) : Prop :=
  ∃ after, d.handle attempt item inf = (some .duplicate, after)

/-- After the step every acked message is settled, and an attempt that raised does
not make a retry of its message be dropped. -/
def Lossless (d : Deployment K σ) (system : System K σ) (event : Delivery K) : Prop :=
  (∀ seq ∈ (step d system event).acked, ∀ item ∈ d.item seq,
      Settled (step d system event) (dedupKey item)) ∧
    ∀ item ∈ d.item event.seq, (d.handle event.attempt item system.inference).1 = none →
      ∀ retry, Drops d retry item (step d system event).inference →
        Drops d retry item system.inference

/-- Past the dedup something raises: the classifier, or for an item that passes the
gate the entities, the embedding or the publish. -/
def breaksOff (worker : Worker K σ) (attempt : Attempt K) (item : Item) (inf : Inference K σ) :
    Bool :=
  match tally worker.py worker.gazetteer item inf.mentions with
  | none => false
  | some (merged, _) => !worker.dedup.knows inf.dedup (dedupKey item) &&
    match relevance attempt.classifier merged with
    | none => true
    | some score =>
      match (gate worker.math inf.gov attempt score merged.sourceClass).1 with
      | none => false
      | some exploration => (worker.enrich attempt merged exploration).isNone

/-- No attempt at a message whose key is new raises past the dedup. -/
def Completes (d : Deployment K σ) (system : System K σ) (event : Delivery K) : Prop :=
  ∀ item ∈ d.item event.seq, ¬ breaksOff d.toWorker event.attempt item system.inference

instance (d : Deployment K σ) (system : System K σ) : DecidablePred (Completes d system) :=
  fun event => inferInstanceAs (Decidable (∀ item ∈ d.item event.seq, _))

/-- The store tells the keys of the stream's messages apart. -/
def CollisionFree (d : Deployment K σ) : Prop :=
  ∀ seq seq' item item', d.item seq = some item → d.item seq' = some item' →
    d.dedup.kept (dedupKey item) = d.dedup.kept (dedupKey item') → dedupKey item = dedupKey item'

/-- What a lossless run maintains: every acked message and every known key is settled. -/
structure Kept (d : Deployment K σ) (system : System K σ) : Prop where
  acked : ∀ seq ∈ system.acked, ∀ item ∈ d.item seq, Settled system (dedupKey item)
  known : ∀ key, d.dedup.knows system.inference.dedup key → ∃ seq item, d.item seq = some item ∧
    d.dedup.kept key = d.dedup.kept (dedupKey item) ∧ Settled system (dedupKey item)

section Attempt

variable {worker : Worker K σ} {attempt : Attempt K} {item : Item} {inf after : Inference K σ}
  {result : Option Fate}

theorem drops_iff {d : Deployment K σ} : Drops d attempt item inf ↔
    (tally d.py d.gazetteer item inf.mentions).isSome ∧
      d.dedup.knows inf.dedup (dedupKey item) = true := by
  rw [Drops]
  constructor
  · rintro ⟨after, handled⟩
    have inverted := handle_handled d.toWorker attempt item inf
    rw [handled] at inverted
    cases inverted with
    | duplicate tallied known => exact ⟨by rw [tallied]; rfl, known⟩
  · rintro ⟨tallied, known⟩
    obtain ⟨⟨merged, mentions⟩, tallied⟩ := Option.isSome_iff_exists.mp tallied
    refine ⟨{ inf with mentions }, ?_⟩
    have key := dedupKey_same (tally_same tallied)
    simp [Worker.handle, tallied, Deduper.seen, key, known]

/-- Whether the tally goes through depends on the text alone. -/
theorem tally_isSome {py : Python} {gaz : Gazetteer} {mentions other : Counter String} :
    (tally py gaz item mentions).isSome = (tally py gaz item other).isSome := by
  unfold tally
  cases gaz.matchText py item.text <;> rfl

/-- A call that breaks off leaves its key behind. -/
theorem breaksOff_iff (handled : Handled worker attempt item inf result after) :
    breaksOff worker attempt item inf ↔
      result = none ∧ (tally worker.py worker.gazetteer item inf.mentions).isSome := by
  rw [breaksOff]
  cases handled with
  | untallied rejected => simp [rejected]
  | duplicate tallied known => simp [tallied, known]
  | unscored tallied fresh raised => simp [tallied, fresh, raised]
  | shed tallied fresh scored gated => simp [tallied, fresh, scored, gated]
  | lost tallied fresh scored gated raised => simp [tallied, fresh, scored, gated, raised]
  | published tallied fresh scored gated sent => simp [tallied, fresh, scored, gated, sent]

theorem breaksOff_records (handled : Handled worker attempt item inf result after)
    (breaks : breaksOff worker attempt item inf) :
    worker.dedup.knows inf.dedup (dedupKey item) = false ∧
      worker.dedup.knows after.dedup (dedupKey item) = true := by
  obtain ⟨rfl, tallied⟩ := (breaksOff_iff handled).mp breaks
  cases handled with
  | untallied rejected =>
    rw [rejected] at tallied
    cases tallied
  | unscored _ fresh => exact ⟨fresh, worker.dedup.knows_record _ _ fresh⟩
  | lost _ fresh => exact ⟨fresh, worker.dedup.knows_record _ _ fresh⟩

end Attempt

section Run

variable {d : Deployment K σ} {system : System K σ} {event : Delivery K}

omit [LinearOrder K] in
theorem Settled.grow {key : String} (settled : Settled system key)
    (more : List (String × EnrichedItem)) (keys : List String) (inference : Inference K σ)
    (acked : Finset ℕ) :
    Settled { inference, enriched := system.enriched ++ more, declined := system.declined ++ keys,
              acked } key := by
  rcases settled with published | declined
  · refine .inl ?_
    rw [List.map_append]
    exact List.mem_append_left _ published
  · exact .inr (List.mem_append_left _ declined)

theorem settled_step {key : String} (settled : Settled system key) :
    Settled (step d system event) key := by
  cases seen : d.item event.seq with
  | none =>
    rw [step_dropped seen]
    exact settled
  | some item =>
    obtain ⟨result, after, _, _, next⟩ := step_handled system seen
    rw [next]
    exact settled.grow ..

/-- What an attempt that does not break off acks or records is settled. -/
theorem own_settled (collisionFree : CollisionFree d) (kept : Kept d system) {item : Item}
    {result : Option Fate} {after : Inference K σ} (seen : d.item event.seq = some item)
    (handled : Handled d.toWorker event.attempt item system.inference result after)
    (unbroken : ¬ breaksOff d.toWorker event.attempt item system.inference)
    (next : (step d system event).enriched =
        system.enriched ++ (result.bind Fate.publication).toList ∧
      (step d system event).declined =
        system.declined ++ (result.bind (Fate.declines item)).toList) :
    (result.isSome → Settled (step d system event) (dedupKey item)) ∧
      (after.dedup = system.inference.dedup ∨
        after.dedup = d.dedup.record (dedupKey item) system.inference.dedup ∧
          Settled (step d system event) (dedupKey item)) := by
  rw [breaksOff_iff handled] at unbroken
  cases handled with
  | untallied rejected => exact ⟨by simp, .inl rfl⟩
  | duplicate tallied known =>
    refine ⟨fun _ => ?_, .inl rfl⟩
    obtain ⟨seq, other, found, same, settled⟩ := kept.known _ known
    rw [collisionFree _ _ _ _ seen found same]
    exact settled_step settled
  | unscored tallied => exact absurd ⟨rfl, by rw [tallied]; rfl⟩ unbroken
  | lost tallied => exact absurd ⟨rfl, by rw [tallied]; rfl⟩ unbroken
  | shed tallied =>
    have settled : Settled (step d system event) (dedupKey item) := by
      refine .inr ?_
      rw [next.2]
      exact List.mem_append_right _ List.mem_cons_self
    exact ⟨fun _ => settled, .inr ⟨rfl, settled⟩⟩
  | @published _ _ _ _ _ _ subject enriched tallied fresh scored gated sent =>
    have key := dedupKey_same ((tally_same tallied).trans (enrich_spec sent).2.1)
    have settled : Settled (step d system event) (dedupKey item) := by
      refine .inl (List.mem_map.mpr ⟨(subject, enriched), ?_, key⟩)
      rw [next.1]
      exact List.mem_append_right _ List.mem_cons_self
    exact ⟨fun _ => settled, .inr ⟨rfl, settled⟩⟩

/-- A step that completes keeps all that is acked or known settled. -/
theorem step_kept (collisionFree : CollisionFree d) (kept : Kept d system)
    (completes : Completes d system event) : Kept d (step d system event) := by
  cases seen : d.item event.seq with
  | none =>
    rw [step_dropped seen]
    exact kept
  | some item =>
    obtain ⟨result, after, handled, _, next⟩ := step_handled system seen
    obtain ⟨ended, recorded⟩ := own_settled collisionFree kept seen handled (completes item seen)
      (by rw [next]; exact ⟨rfl, rfl⟩)
    have inference : (step d system event).inference = after := by rw [next]
    have acked : (step d system event).acked =
        if result.isSome then insert event.seq system.acked else system.acked := by rw [next]
    refine ⟨fun seq member other found => ?_, fun key known => ?_⟩
    · rw [acked] at member
      split at member
      · rename_i returned
        rcases Finset.mem_insert.mp member with rfl | old
        · cases seen.symm.trans found
          exact ended returned
        · exact settled_step (kept.acked seq old other found)
      · exact settled_step (kept.acked seq member other found)
    · have old (before : d.dedup.knows system.inference.dedup key) : ∃ seq item,
          d.item seq = some item ∧ d.dedup.kept key = d.dedup.kept (dedupKey item) ∧
            Settled (step d system event) (dedupKey item) := by
        obtain ⟨seq, other, found, equal, settled⟩ := kept.known key before
        exact ⟨seq, other, found, equal, settled_step settled⟩
      rw [inference] at known
      rcases recorded with same | ⟨same, settled⟩
      · exact old (same ▸ known)
      · rw [same] at known
        rcases d.dedup.of_knows_record _ _ _ known with equal | before
        · exact ⟨event.seq, item, seen, equal, settled⟩
        · exact old before

/-- From a state where all is settled, a step loses nothing exactly when it completes. -/
theorem lossless_iff_completes (collisionFree : CollisionFree d) (kept : Kept d system) :
    Lossless d system event ↔ Completes d system event := by
  constructor
  · intro lossless item seen breaks
    obtain ⟨result, after, handled, ran, next⟩ := step_handled system seen
    obtain ⟨raised, tallied⟩ := (breaksOff_iff handled).mp breaks
    obtain ⟨fresh, recorded⟩ := breaksOff_records handled breaks
    have dropped := lossless.2 item seen (by rw [ran]; exact raised) event.attempt
    rw [drops_iff, drops_iff, next, fresh] at dropped
    exact nomatch (dropped ⟨tally_isSome.trans tallied, recorded⟩).2
  · intro completes
    refine ⟨(step_kept collisionFree kept completes).acked, fun item seen raised retry => ?_⟩
    obtain ⟨result, after, handled, ran, next⟩ := step_handled system seen
    have unbroken := completes item seen
    rw [breaksOff_iff handled] at unbroken
    rw [ran] at raised
    dsimp only at raised
    subst raised
    rw [drops_iff, drops_iff, next]
    rintro ⟨tallied, known⟩
    exact absurd ⟨rfl, tally_isSome.trans tallied⟩ unbroken

end Run

/-- No item is lost along a run exactly when no attempt at a message whose key is
new raises past the dedup. -/
theorem no_item_lost_iff (d : Deployment K σ) (events : List (Delivery K))
    (collisionFree : CollisionFree d) :
    Along (step d) (Lossless d) d.start events ↔ Along (step d) (Completes d) d.start events := by
  have start : Kept d d.start :=
    ⟨by simp [Deployment.start], by simp [Deployment.start, d.dedup.knows_empty]⟩
  have every : Along (step d) (fun _ _ => True) d.start events := along_of_forall fun _ _ => trivial
  refine along_congr every (Kept d) start
    (fun _ _ kept _ => lossless_iff_completes collisionFree kept) fun _ _ kept lossless => ?_
  exact step_kept collisionFree kept ((lossless_iff_completes collisionFree kept).mp lossless)

/-- Two copies of one notice. -/
def copies : Deployment ℚ (List String) :=
  replicaOf (inMemory 50000 (by decide))
    [("ingest.usgs", notice 1 "usgs" "quake"), ("ingest.usgs", notice 2 "usgs" "quake")]

theorem copies_not_lost :
    Along (step copies) (Lossless copies) copies.start [⟨0, plainAttempt⟩, ⟨1, plainAttempt⟩] := by
  exact (no_item_lost_iff copies _ fun _ _ _ _ _ _ same => same).mpr (by decide +kernel)

/-- The publish fails once; the redelivery is acked as a duplicate of itself. -/
theorem item_lost :
    let failed : Delivery ℚ := ⟨0, { plainAttempt with sent := false }⟩
    let system := run (step copies) copies.start [failed, ⟨0, plainAttempt⟩]
    (0 ∈ system.acked ∧ system.enriched.length = 0 ∧ system.declined = []) ∧
      ¬ Along (step copies) (Lossless copies) copies.start [failed, ⟨0, plainAttempt⟩] := by
  intro failed system
  refine ⟨by decide +kernel, fun lossless => ?_⟩
  have settled := lossless.2.1.1 0 (by decide +kernel) (notice 1 "usgs" "quake") rfl
  exact absurd settled (by decide +kernel)

end NewsAggregator.Enrich
