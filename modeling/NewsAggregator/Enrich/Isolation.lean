import NewsAggregator.Enrich.Consumer

/-! What the messages of one ingest subject can do to the items another source
has published, as a comparison of a run with the run without them. -/

namespace NewsAggregator.Enrich

open Foundation Dedup Bus

variable {K σ : Type} [Field K] [LinearOrder K]

def Deployment.subject (d : Deployment K σ) (event : Delivery K) : String :=
  (d.stream event.seq).subject

/-- The run without the messages of the subject. -/
def without (d : Deployment K σ) (subject : String) (events : List (Delivery K)) :
    List (Delivery K) :=
  events.filter fun event => d.subject event ≠ subject

/-- The state after the events. -/
def after (d : Deployment K σ) (events : List (Delivery K)) : System K σ :=
  run (step d) d.start events

/-- The published items that name the source. -/
def itemsOf (source : String) (system : System K σ) : List EnrichedItem :=
  (system.enriched.map Prod.snd).filter fun enriched => enriched.item.source = source

/-- One of the messages carries the dedup key. -/
def Brought (d : Deployment K σ) (events : List (Delivery K)) (key : String) : Prop :=
  ∃ event ∈ events, ∃ item ∈ d.item event.seq, d.dedup.kept (dedupKey item) = d.dedup.kept key

/-- What the gate makes of an item: its `exploration` flag if it passes. -/
def admission (worker : Worker K σ) (attempt : Attempt K) (item : Item) (inf : Inference K σ) :
    Option Bool :=
  (tally worker.py worker.gazetteer item inf.mentions).bind fun tallied =>
    (relevance attempt.classifier tallied.1).bind fun score =>
      (gate worker.math inf.gov attempt score tallied.1.sourceClass).1

/-- The handler raises neither with nor without the subject's messages before. -/
def Smooth (d : Deployment K σ) (subject : String) (before : List (Delivery K))
    (event : Delivery K) : Prop :=
  ∀ item ∈ d.item event.seq,
    (d.handle event.attempt item (after d before).inference).1.isSome ∧
      (d.subject event ≠ subject →
        (d.handle event.attempt item (after d (without d subject before)).inference).1.isSome)

/-- A message of the subject that names the source has a known key or is shed. For
a message from elsewhere that names it, a key the subject brought was brought from
elsewhere as well, or the item is shed anyway; and the gate lets a new one pass
alike. -/
def Isolated (d : Deployment K σ) (subject source : String) (before : List (Delivery K))
    (event : Delivery K) : Prop :=
  ∀ item ∈ d.item event.seq, item.source = source →
    if d.subject event = subject then
      Brought d before (dedupKey item) ∨
        admission d.toWorker event.attempt item (after d before).inference = none
    else
      (Brought d before (dedupKey item) →
        Brought d (without d subject before) (dedupKey item) ∨
          admission d.toWorker event.attempt item
            (after d (without d subject before)).inference = none) ∧
      (¬ Brought d before (dedupKey item) →
        admission d.toWorker event.attempt item (after d before).inference =
          admission d.toWorker event.attempt item (after d (without d subject before)).inference)

instance (d : Deployment K σ) (events : List (Delivery K)) : DecidablePred (Brought d events) :=
  fun key => inferInstanceAs (Decidable (∃ event ∈ events, ∃ item ∈ d.item event.seq,
    d.dedup.kept (dedupKey item) = d.dedup.kept key))

instance (d : Deployment K σ) (subject : String) (before : List (Delivery K)) :
    DecidablePred (Smooth d subject before) :=
  fun event => inferInstanceAs (Decidable (∀ item ∈ d.item event.seq, _ ∧ (_ → _)))

instance (d : Deployment K σ) (subject source : String) (before : List (Delivery K)) :
    DecidablePred (Isolated d subject source before) :=
  fun event => inferInstanceAs (Decidable (∀ item ∈ d.item event.seq, item.source = source → _))

section Attempt

variable {worker : Worker K σ} {attempt : Attempt K} {item : Item} {inf : Inference K σ}

/-- The item as it would be published. -/
def emitted (worker : Worker K σ) (attempt : Attempt K) (item : Item) (exploration : Bool) :
    Option EnrichedItem :=
  (worker.gazetteer.matchText worker.py item.text).bind fun hits =>
    (worker.enrich attempt (mergeEntities item hits) exploration).map Prod.snd

omit [Field K] [LinearOrder K] in
theorem emitted_exploration {exploration : Bool} {enriched : EnrichedItem}
    (sent : emitted worker attempt item exploration = some enriched) :
    enriched.exploration = exploration := by
  obtain ⟨hits, _, rest⟩ := Option.bind_eq_some_iff.mp sent
  obtain ⟨⟨subject, message⟩, published, rfl⟩ := Option.map_eq_some_iff.mp rest
  exact (enrich_spec published).2.2

/-- The items a call publishes in the source's name. -/
def voiced (worker : Worker K σ) (attempt : Attempt K) (item : Item) (inf : Inference K σ) :
    Option EnrichedItem :=
  if worker.dedup.knows inf.dedup (dedupKey item) then none
  else (admission worker attempt item inf).bind (emitted worker attempt item)

theorem tally_hits {py : Python} {gaz : Gazetteer} {mentions more : Counter String}
    {merged : Item} (tallied : tally py gaz item mentions = some (merged, more)) :
    ∃ hits, gaz.matchText py item.text = some hits ∧ merged = mergeEntities item hits := by
  obtain ⟨hits, found, same⟩ := Option.bind_eq_some_iff.mp tallied
  cases same
  exact ⟨hits, found, rfl⟩

/-- What a call publishes is given by the key, the gate and the item alone. -/
theorem publication_eq (returns : (worker.handle attempt item inf).1.isSome) :
    (((worker.handle attempt item inf).1.bind Fate.publication).map Prod.snd =
        voiced worker attempt item inf) ∧
      (worker.gazetteer.matchText worker.py item.text).isSome ∧
      (worker.dedup.knows inf.dedup (dedupKey item) = false →
        ∀ exploration, admission worker attempt item inf = some exploration →
          (emitted worker attempt item exploration).isSome) := by
  have handled := handle_handled worker attempt item inf
  generalize worker.handle attempt item inf = pair at returns handled ⊢
  obtain ⟨result, final⟩ := pair
  rw [voiced, admission]
  cases handled with
  | untallied rejected => cases returns
  | unscored tallied fresh raised => cases returns
  | lost tallied fresh scored gated raised => cases returns
  | duplicate tallied known =>
    obtain ⟨hits, found, _⟩ := tally_hits tallied
    refine ⟨by simp [known, Fate.publication], by rw [found]; rfl, fun fresh => ?_⟩
    rw [known] at fresh
    cases fresh
  | shed tallied fresh scored gated =>
    obtain ⟨hits, found, _⟩ := tally_hits tallied
    refine ⟨by simp [tallied, scored, gated, Fate.publication], by rw [found]; rfl, ?_⟩
    simp [tallied, scored, gated]
  | published tallied fresh scored gated sent =>
    obtain ⟨hits, found, rfl⟩ := tally_hits tallied
    refine ⟨?_, by rw [found]; rfl, ?_⟩
    · simp [fresh, tallied, scored, gated, Fate.publication, emitted, found, sent]
    · simp [tallied, scored, gated, emitted, found, sent]

theorem voiced_eq_none (returns : (worker.handle attempt item inf).1.isSome) :
    voiced worker attempt item inf = none ↔
      worker.dedup.knows inf.dedup (dedupKey item) = true ∨
        admission worker attempt item inf = none := by
  obtain ⟨_, _, emits⟩ := publication_eq returns
  rw [voiced]
  cases fresh : worker.dedup.knows inf.dedup (dedupKey item) with
  | true => simp
  | false =>
    cases admitted : admission worker attempt item inf with
    | none => simp
    | some exploration =>
      obtain ⟨enriched, sent⟩ := Option.isSome_iff_exists.mp (emits fresh exploration admitted)
      simp [sent]

/-- Two calls at a new item publish alike exactly when the gate answers alike. -/
theorem voiced_eq_iff_of_fresh {other : Inference K σ}
    (returns : (worker.handle attempt item inf).1.isSome)
    (returns' : (worker.handle attempt item other).1.isSome)
    (fresh : worker.dedup.knows inf.dedup (dedupKey item) = false)
    (fresh' : worker.dedup.knows other.dedup (dedupKey item) = false) :
    voiced worker attempt item inf = voiced worker attempt item other ↔
      admission worker attempt item inf = admission worker attempt item other := by
  obtain ⟨_, _, emits⟩ := publication_eq returns
  obtain ⟨_, _, emits'⟩ := publication_eq returns'
  have emits := emits fresh
  have emits' := emits' fresh'
  unfold voiced
  rw [fresh, fresh']
  simp only [Bool.false_eq_true, if_false]
  constructor
  · intro same
    cases left : admission worker attempt item inf with
    | none =>
      cases right : admission worker attempt item other with
      | none => rfl
      | some exploration =>
        have sent := emits' exploration right
        rw [left, right, Option.bind_none, Option.bind_some] at same
        rw [← same] at sent
        cases sent
    | some exploration =>
      obtain ⟨enriched, sent⟩ := Option.isSome_iff_exists.mp (emits exploration left)
      rw [left, Option.bind_some, sent] at same
      obtain ⟨flag, right, sent'⟩ := Option.bind_eq_some_iff.mp same.symm
      rw [right, ← emitted_exploration sent, ← emitted_exploration sent']
  · intro same
    rw [same]

theorem voiced_eq_iff {other : Inference K σ} (returns : (worker.handle attempt item inf).1.isSome)
    (returns' : (worker.handle attempt item other).1.isSome)
    (fewer : worker.dedup.knows other.dedup (dedupKey item) →
      worker.dedup.knows inf.dedup (dedupKey item)) :
    voiced worker attempt item inf = voiced worker attempt item other ↔
      (worker.dedup.knows inf.dedup (dedupKey item) →
          worker.dedup.knows other.dedup (dedupKey item) ∨
            admission worker attempt item other = none) ∧
        (¬ worker.dedup.knows inf.dedup (dedupKey item) →
          admission worker attempt item inf = admission worker attempt item other) := by
  cases known : worker.dedup.knows inf.dedup (dedupKey item) with
  | true =>
    rw [(voiced_eq_none returns).mpr (.inl known), eq_comm, voiced_eq_none returns']
    simp
  | false =>
    have fresh : worker.dedup.knows other.dedup (dedupKey item) = false := by
      by_contra other
      exact nomatch known.symm.trans (fewer (Bool.of_not_eq_false other))
    rw [voiced_eq_iff_of_fresh returns returns' known fresh]
    simp

end Attempt

section Run

variable {d : Deployment K σ} {system : System K σ} {event : Delivery K}

/-- The text of every message is tallied without an error. -/
def Tallied (d : Deployment K σ) (event : Delivery K) : Prop :=
  ∀ item ∈ d.item event.seq, (d.gazetteer.matchText d.py item.text).isSome

theorem knows_step (lasting : d.dedup.Lasting) (tallied : Tallied d event) (key : String) :
    d.dedup.knows (step d system event).inference.dedup key ↔
      d.dedup.knows system.inference.dedup key ∨
        ∃ item ∈ d.item event.seq, d.dedup.kept (dedupKey item) = d.dedup.kept key := by
  cases seen : d.item event.seq with
  | none => simp [step_dropped seen]
  | some item =>
    obtain ⟨result, final, handled, _, next⟩ := step_handled system seen
    have hits := tallied item seen
    have recorded (fresh : d.dedup.knows system.inference.dedup (dedupKey item) = false) :
        d.dedup.knows (d.dedup.record (dedupKey item) system.inference.dedup) key ↔
          d.dedup.knows system.inference.dedup key ∨
            d.dedup.kept (dedupKey item) = d.dedup.kept key := by
      constructor
      · intro known
        exact (d.dedup.of_knows_record _ _ _ known).symm.imp_right Eq.symm
      · rintro (old | same)
        · exact lasting _ _ _ old
        · rw [← d.dedup.knows_congr _ _ _ same]
          exact d.dedup.knows_record _ _ fresh
    rw [next]
    simp only [Option.mem_some_iff, exists_eq_left']
    cases handled with
    | untallied rejected =>
      obtain ⟨found, same⟩ := Option.isSome_iff_exists.mp hits
      simp [tally, same] at rejected
    | duplicate tallied known =>
      refine ⟨.inl, fun either => either.elim id fun same => ?_⟩
      rw [← d.dedup.knows_congr _ _ _ same]
      exact known
    | unscored _ fresh => exact recorded fresh
    | shed _ fresh => exact recorded fresh
    | lost _ fresh => exact recorded fresh
    | published _ fresh => exact recorded fresh

theorem knows_after (lasting : d.dedup.Lasting) (events : List (Delivery K))
    (tallied : ∀ event ∈ events, Tallied d event) (key : String) :
    d.dedup.knows (after d events).inference.dedup key ↔ Brought d events key := by
  induction events using List.reverseRecOn with
  | nil => simp [after, Deployment.start, d.dedup.knows_empty, Brought]
  | append_singleton before event ih =>
    have earlier := ih fun other member => tallied other (List.mem_append_left _ member)
    have own := tallied event (List.mem_append_right _ List.mem_cons_self)
    rw [after, run_concat]
    rw [after] at earlier
    rw [knows_step lasting own, earlier]
    unfold Brought
    simp only [List.mem_append, List.mem_singleton]
    constructor
    · rintro (⟨other, member, rest⟩ | rest)
      · exact ⟨other, .inl member, rest⟩
      · exact ⟨event, .inr rfl, rest⟩
    · rintro ⟨other, member | rfl, rest⟩
      · exact .inl ⟨other, member, rest⟩
      · exact .inr rest

/-- A step publishes in the source's name what its call voices. -/
theorem itemsOf_step {item : Item} (source : String) (seen : d.item event.seq = some item)
    (returns : (d.handle event.attempt item system.inference).1.isSome) :
    itemsOf source (step d system event) = itemsOf source system ++
      if item.source = source then
        (voiced d.toWorker event.attempt item system.inference).toList
      else [] := by
  obtain ⟨result, final, handled, ran, next⟩ := step_handled system seen
  have published := (publication_eq returns).1
  rw [ran] at published
  have speaker : ∀ message ∈ result.bind Fate.publication, message.2.item.source = item.source := by
    intro message sent
    cases handled with
    | published tallied fresh scored gated emitted =>
      cases sent
      exact ((tally_same tallied).trans (enrich_spec emitted).2.1).source
    | untallied => cases sent
    | duplicate => cases sent
    | unscored => cases sent
    | shed => cases sent
    | lost => cases sent
  rw [← published, next]
  rw [itemsOf]
  rw [List.map_append, List.filter_append]
  congr 1
  cases message : result.bind Fate.publication with
  | none => simp
  | some sent =>
    rw [message] at speaker
    have named := speaker sent rfl
    by_cases own : item.source = source
    · simp [own, named]
    · simp [own, named]

omit [Field K] [LinearOrder K] in
theorem without_concat (subject : String) (before : List (Delivery K)) (event : Delivery K) :
    without d subject (before ++ [event]) =
      if d.subject event = subject then without d subject before
      else without d subject before ++ [event] := by
  unfold without
  rw [List.filter_append]
  split <;> simp [*]

/-- One more message keeps the published items of a source the same in both runs
exactly when it is isolated. -/
theorem itemsOf_concat_iff {subject source : String} {before : List (Delivery K)}
    (lasting : d.dedup.Lasting) (tallied : ∀ other ∈ before, Tallied d other)
    (smooth : Smooth d subject before event)
    (same : itemsOf source (after d before) = itemsOf source (after d (without d subject before))) :
    itemsOf source (after d (before ++ [event])) =
        itemsOf source (after d (without d subject (before ++ [event]))) ↔
      Isolated d subject source before event := by
  have full := knows_after lasting before tallied
  have rest := knows_after lasting (without d subject before) fun other member =>
    tallied other (List.mem_of_mem_filter member)
  have grown (events : List (Delivery K)) :
      after d (events ++ [event]) = step d (after d events) event := run_concat ..
  cases seen : d.item event.seq with
  | none =>
    have unchanged (events : List (Delivery K)) :
        after d (events ++ [event]) = after d events := by
      rw [grown, step_dropped seen]
    refine iff_of_true ?_ fun item found => nomatch seen.symm.trans found
    rw [unchanged, same, without_concat]
    split
    · rfl
    · rw [unchanged]
  | some item =>
    obtain ⟨returns, returns'⟩ := smooth item seen
    rw [grown, without_concat, itemsOf_step source seen returns, same]
    rw [Isolated]
    simp only [seen, Option.mem_some_iff, forall_eq']
    by_cases own : d.subject event = subject
    · simp only [own, if_true]
      rw [List.append_right_eq_self, ← full, ← voiced_eq_none returns]
      by_cases named : item.source = source
      · simp [named]
      · simp [named]
    · simp only [own, if_false]
      rw [grown, itemsOf_step source seen (returns' own), List.append_cancel_left_eq]
      by_cases named : item.source = source
      · have fewer : d.dedup.knows (after d (without d subject before)).inference.dedup
            (dedupKey item) → d.dedup.knows (after d before).inference.dedup (dedupKey item) := by
          rw [full, rest]
          rintro ⟨other, member, carries⟩
          exact ⟨other, List.mem_of_mem_filter member, carries⟩
        simp only [named, if_true, forall_const]
        rw [← full, ← rest, ← voiced_eq_iff returns (returns' own) fewer]
        refine ⟨fun equal => ?_, congrArg _⟩
        simpa using congrArg List.head? equal
      · simp [named]

end Run

/-- The published items of a source are, in every prefix of a run, those of the run
without the subject's messages exactly when the source is isolated from them. -/
theorem source_isolated_iff (d : Deployment K σ) (lasting : d.dedup.Lasting)
    (subject source : String) (events : List (Delivery K))
    (smooth : EachStep (Smooth d subject) events) :
    (∀ before, before <+: events →
        itemsOf source (after d before) = itemsOf source (after d (without d subject before))) ↔
      EachStep (Isolated d subject source) events := by
  refine prefixes_iff rfl fun before event initial same => ?_
  have tallied : ∀ other ∈ before, Tallied d other := by
    intro other member item seen
    obtain ⟨earlier, later, rfl⟩ := List.append_of_mem member
    have shorter : earlier ++ [other] <+: events := by
      refine List.IsPrefix.trans ⟨later ++ [event], ?_⟩ initial
      simp
    have returns := (smooth earlier other shorter item seen).1
    exact (publication_eq returns).2.1
  exact itemsOf_concat_iff lasting tallied (smooth before event initial) same

/-- A post and an official notice, which the post may copy. -/
def postAndNotice (text : String) : Deployment ℚ (Finset String) :=
  replicaOf (natsKv .plain)
    [("ingest.mastodon",
        { notice 1 "mastodon" text with sourceClass := .social }),
      ("ingest.usgs", notice 2 "usgs" "quake")]

theorem notice_isolated :
    itemsOf "usgs" (after (postAndNotice "hello") [⟨0, plainAttempt⟩, ⟨1, plainAttempt⟩]) =
      itemsOf "usgs" (after (postAndNotice "hello")
        (without (postAndNotice "hello") "ingest.mastodon"
          [⟨0, plainAttempt⟩, ⟨1, plainAttempt⟩])) :=
  (source_isolated_iff (postAndNotice "hello") (natsKv_lasting .plain) "ingest.mastodon" "usgs"
    [⟨0, plainAttempt⟩, ⟨1, plainAttempt⟩] (by decide +kernel)).mpr (by decide +kernel) _
    (List.prefix_refl _)

/-- A post with the words of the notice suppresses it. -/
theorem notice_suppressed :
    let copied := postAndNotice "quake"
    let events : List (Delivery ℚ) := [⟨0, plainAttempt⟩, ⟨1, plainAttempt⟩]
    EachStep (Smooth copied "ingest.mastodon") events ∧
      itemsOf "usgs" (after copied events) ≠
        itemsOf "usgs" (after copied (without copied "ingest.mastodon" events)) := by
  intro copied events
  refine ⟨by decide +kernel, fun same => ?_⟩
  exact absurd (congrArg List.length same) (by decide +kernel)

end NewsAggregator.Enrich
