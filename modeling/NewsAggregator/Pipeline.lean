import NewsAggregator.Cluster.Progress
import NewsAggregator.Enrich.Lossless

/-! From INGEST to the Stories: the enrich worker, the writer and the cluster service over one
run, the streams between them and whatever fails on the way. -/

namespace NewsAggregator.Pipeline

open Foundation

variable {K σ : Type} [Field K] [LinearOrder K]

/-- The enrich worker with the messages of INGEST, and the cluster service. -/
structure Deployment (K σ : Type) extends Enrich.Deployment K σ where
  pg : Postgres
  cfg : Cluster.Config := {}

/-- ENRICHED is what the worker has published; the tables and the consumer of the cluster
service come after it. -/
structure System (K σ : Type) [Field K] where
  ingest : Enrich.System K σ
  stories : Cluster.System := {}

def System.enriched (system : System K σ) : List (String × EnrichedItem) := system.ingest.enriched

/-- Messages of INGEST and ENRICHED are delivered, any number of times and in any order, to the
enrich worker, the writer and the cluster service; the worker starts anew, with the bucket of
seen keys or without the ones it had in memory; a Story is promoted. The writer's insert may
miss its partition; one that fails otherwise leaves the tables as they are and is no event. -/
inductive Event (K : Type)
  | enrich (delivery : Enrich.Delivery K)
  | restart (shared : Bool)
  | write (seq : ℕ) (items : Provision)
  | cluster (seq : ℕ) (attempt : Cluster.Attempt)
  | promote (storyId : Uuid)

def Deployment.start (d : Deployment K σ) : System K σ where
  ingest := d.toDeployment.start

/-- ENRICHED as its consumers get it, under the cap of its publisher. -/
def Deployment.outlet (d : Deployment K σ) (enriched : List (String × EnrichedItem)) :
    Cluster.Deployment where
  py := d.py
  pg := d.pg
  cfg := d.cfg
  maxMsgBytes := d.pub.maxMsgBytes
  stream seq :=
    match enriched[seq]? with
    | some message => ⟨message.1, d.jsonSize message.2, some message.2⟩
    | none => ⟨"", 0, none⟩

/-- What happens behind ENRICHED. -/
def onward (d : Deployment K σ) (system : System K σ) (event : Cluster.Event) : System K σ :=
  { system with stories := Cluster.step (d.outlet system.enriched) system.stories event }

def step (d : Deployment K σ) (system : System K σ) : Event K → System K σ
  | .enrich delivery => { system with ingest := Enrich.step d.toDeployment system.ingest delivery }
  | .restart shared =>
    let dedup := if shared then system.ingest.inference.dedup else d.dedup.empty
    { system with ingest := { system.ingest with inference := { dedup } } }
  | .write seq items =>
    match (d.outlet system.enriched).item seq with
    | some enriched =>
      if items.places enriched.item.tsObserved then onward d system (.write enriched) else system
    | none => system
  | .cluster seq attempt => onward d system (.deliver seq attempt)
  | .promote storyId => onward d system (.promote storyId)

/-- An attempt of the run at an item with the key raised past the dedup. -/
def BrokeOff (d : Deployment K σ) (events : List (Event K)) (key : String) : Prop :=
  ∃ before delivery, before ++ [.enrich delivery] <+: events ∧ ∃ item ∈ d.item delivery.seq,
    Enrich.dedupKey item = key ∧ Enrich.breaksOff d.toWorker delivery.attempt item
      (run (step d) d.start before).ingest.inference

/-- An item that the dedup does not tell from this one was shed, broke off, or is settled. -/
def Accounted (d : Deployment K σ) (events : List (Event K)) (settled : String → Prop)
    (key : String) : Prop :=
  ∃ other, d.dedup.kept other = d.dedup.kept key ∧
    (other ∈ (run (step d) d.start events).ingest.declined ∨ BrokeOff d events other ∨
      settled other)

/-- An item with the key is on ENRICHED. -/
def Published (system : System K σ) (key : String) : Prop :=
  ∃ message ∈ system.enriched, Enrich.dedupKey message.2.item = key

/-- An item with the key is on ENRICHED, and so much is told of the row stored for it. -/
def Told (told : Store → Uuid × Int → Prop) (system : System K σ) (key : String) : Prop :=
  ∃ message ∈ system.enriched, Enrich.dedupKey message.2.item = key ∧
    told system.stories.store message.2.item.key

/-- An attempt of the cluster service that ends joins only a Story with a row. -/
def Rooted (d : Deployment K σ) (system : System K σ) : Event K → Prop
  | .cluster seq attempt =>
    Cluster.Rooted (d.outlet system.enriched) system.stories (.deliver seq attempt)
  | _ => True

instance (d : Deployment K σ) (system : System K σ) : DecidablePred (Rooted d system)
  | .cluster seq attempt => inferInstanceAs (Decidable
      (Cluster.Rooted (d.outlet system.enriched) system.stories (.deliver seq attempt)))
  | .enrich _ => isTrue trivial
  | .restart _ => isTrue trivial
  | .write _ _ => isTrue trivial
  | .promote _ => isTrue trivial

section Streams

variable {d : Deployment K σ} {enriched more : List (String × EnrichedItem)} {seq : ℕ}

omit [Field K] [LinearOrder K]

/-- What is published stays what it is. -/
theorem item_outlet_append (published : seq < enriched.length) :
    (d.outlet (enriched ++ more)).item seq = (d.outlet enriched).item seq := by
  simp only [Cluster.Deployment.item, Deployment.outlet, List.getElem?_append_left published]

/-- No consumer drops a published message. -/
theorem item_outlet (sized : ∀ message ∈ enriched, d.jsonSize message.2 ≤ d.pub.maxMsgBytes)
    (seq : ℕ) :
    (d.outlet enriched).item seq = enriched[seq]?.map Prod.snd := by
  simp only [Cluster.Deployment.item, Deployment.outlet]
  cases found : enriched[seq]? with
  | none => rfl
  | some message => exact if_neg (sized message (List.mem_of_getElem? found)).not_gt

/-- The item of a row was there before or is written. -/
theorem row_before {d : Cluster.Deployment} {system : Cluster.System} {event : Cluster.Event}
    {row : ItemRow} (member : row ∈ (Cluster.step d system event).store.items) :
    (∃ old ∈ system.store.items, row.item = old.item) ∨
      ∃ enriched, event = .write enriched ∧ row.item = enriched.item := by
  cases event with
  | write enriched =>
    change row ∈ (Cluster.insertItem system.store enriched).items at member
    rw [Cluster.insertItem] at member
    split at member
    · exact .inl ⟨row, member, rfl⟩
    · rcases List.mem_append.mp member with old | new
      · exact .inl ⟨row, old, rfl⟩
      · rw [List.mem_singleton.mp new]
        exact .inr ⟨enriched, rfl, rfl⟩
  | promote storyId => exact .inl ⟨row, member, rfl⟩
  | deliver seq attempt =>
    left
    cases handled : d.item seq with
    | none =>
      rw [Cluster.step_dropped handled] at member
      exact ⟨row, member, rfl⟩
    | some enriched =>
      obtain ⟨result, final, _, leaves, next⟩ := Cluster.step_handled system attempt handled
      rw [next, Cluster.System.settle_store] at member
      rcases Cluster.leaves_items leaves with ⟨rfl, _⟩ | ⟨_, _, items⟩
      · exact ⟨row, member, rfl⟩
      · rw [items] at member
        obtain ⟨old, present, same, _⟩ := Cluster.mem_assigned member
        exact ⟨old, present, same⟩

/-- Only delivered messages are acked. -/
theorem acked_before {d : Cluster.Deployment} {system : Cluster.System} {event : Cluster.Event}
    (member : seq ∈ (Cluster.step d system event).acked) :
    seq ∈ system.acked ∨ (d.item seq).isSome := by
  cases event with
  | write enriched => exact .inl member
  | promote storyId => exact .inl member
  | deliver other attempt =>
    cases handled : d.item other with
    | none =>
      rw [Cluster.step_dropped handled] at member
      exact .inl member
    | some enriched =>
      obtain ⟨result, final, _, _, next⟩ := Cluster.step_handled system attempt handled
      rw [next, Cluster.System.settle] at member
      dsimp only at member
      split at member
      · rcases Finset.mem_insert.mp member with rfl | old
        · exact .inr (by rw [handled]; rfl)
        · exact .inl old
      · exact .inl member

end Streams

/-- What every event keeps: ENRICHED and the rows come from INGEST, no published message is
too large, and what the cluster service acked is published and in a Story. -/
structure Conveyed (d : Deployment K σ) (system : System K σ) : Prop where
  sized : ∀ message ∈ system.enriched, d.jsonSize message.2 ≤ d.pub.maxMsgBytes
  origin : ∀ message ∈ system.enriched, ∃ seq, ∃ item ∈ d.item seq, SameReport item message.2.item
  rows : ∀ row ∈ system.stories.store.items, ∃ message ∈ system.enriched,
    row.item = message.2.item
  acked : ∀ seq ∈ system.stories.acked, seq < system.enriched.length
  clustered : Cluster.AckedClustered (d.outlet system.enriched) system.stories

section Conveyed

variable {d : Deployment K σ} {system : System K σ}

omit [LinearOrder K] in
theorem Conveyed.onward (conveyed : Conveyed d system) (event : Cluster.Event)
    (written : ∀ enriched, event = .write enriched →
      ∃ message ∈ system.enriched, enriched = message.2) :
    Conveyed d (onward d system event) where
  sized := conveyed.sized
  origin := conveyed.origin
  rows row member := by
    rcases row_before member with ⟨old, present, same⟩ | ⟨enriched, rfl, same⟩
    · rw [same]
      exact conveyed.rows old present
    · obtain ⟨message, published, rfl⟩ := written enriched rfl
      exact ⟨message, published, same⟩
  acked seq member := by
    rcases acked_before member with old | seen
    · exact conveyed.acked seq old
    · change seq < system.enriched.length
      simpa [item_outlet conveyed.sized] using seen
  clustered := Cluster.step_ackedClustered conveyed.clustered event

omit [LinearOrder K] in
/-- ENRICHED grows by messages that come from INGEST and fit. -/
theorem Conveyed.publish (conveyed : Conveyed d system) {ingest : Enrich.System K σ}
    {more : List (String × EnrichedItem)} (grown : ingest.enriched = system.enriched ++ more)
    (sized : ∀ message ∈ more, d.jsonSize message.2 ≤ d.pub.maxMsgBytes)
    (origin : ∀ message ∈ more, ∃ seq, ∃ item ∈ d.item seq, SameReport item message.2.item) :
    Conveyed d { system with ingest } := by
  have log : ({ system with ingest } : System K σ).enriched = system.enriched ++ more := grown
  refine ⟨?_, ?_, ?_, ?_, ?_⟩
  · intro message member
    rw [log] at member
    exact (List.mem_append.mp member).elim (conveyed.sized message) (sized message)
  · intro message member
    rw [log] at member
    exact (List.mem_append.mp member).elim (conveyed.origin message) (origin message)
  · intro row member
    obtain ⟨message, published, same⟩ := conveyed.rows row member
    rw [log]
    exact ⟨message, List.mem_append_left _ published, same⟩
  · intro seq member
    rw [log, List.length_append]
    exact Nat.lt_add_right _ (conveyed.acked seq member)
  · intro seq member item sent
    rw [log, item_outlet_append (conveyed.acked seq member)] at sent
    exact conveyed.clustered seq member item sent

/-- An insert that finds its partition stores the message. -/
theorem step_write_places (sized : ∀ message ∈ system.enriched,
      d.jsonSize message.2 ≤ d.pub.maxMsgBytes) {seq : ℕ} {items : Provision}
    {message : String × EnrichedItem} (there : system.enriched[seq]? = some message)
    (places : items.places message.2.item.tsObserved = true) :
    Pipeline.step d system (.write seq items) = Pipeline.onward d system (.write message.2) := by
  simp only [Pipeline.step, item_outlet sized, there, Option.map_some]
  exact if_pos places

/-- Any other one does nothing. -/
theorem step_write_cases (sized : ∀ message ∈ system.enriched,
      d.jsonSize message.2 ≤ d.pub.maxMsgBytes) (seq : ℕ) (items : Provision) :
    Pipeline.step d system (.write seq items) = system ∨
      ∃ message ∈ system.enriched,
        Pipeline.step d system (.write seq items) = Pipeline.onward d system (.write message.2) := by
  cases there : system.enriched[seq]? with
  | none =>
    left
    simp only [Pipeline.step, item_outlet sized, there, Option.map_none]
  | some message =>
    by_cases places : items.places message.2.item.tsObserved = true
    · exact .inr ⟨message, List.mem_of_getElem? there, step_write_places sized there places⟩
    · left
      simp only [Pipeline.step, item_outlet sized, there, Option.map_some]
      exact if_neg places

/-- What the worker publishes comes from the item it got and fits. -/
theorem published_spec {worker : Enrich.Worker K σ} {attempt : Enrich.Attempt K} {item : Item}
    {inf after : Enrich.Inference K σ} {result : Option Enrich.Fate}
    (handled : Enrich.Handled worker attempt item inf result after)
    {message : String × EnrichedItem}
    (member : message ∈ (result.bind Enrich.Fate.publication).toList) :
    SameReport item message.2.item ∧ worker.jsonSize message.2 ≤ worker.pub.maxMsgBytes := by
  cases handled with
  | @published merged _ _ _ _ _ subject enriched tallied _ _ _ sent =>
    obtain rfl : message = (subject, enriched) := by
      simpa [Enrich.Fate.publication] using member
    refine ⟨(Enrich.tally_same tallied).trans (Enrich.enrich_spec sent).2.1, ?_⟩
    obtain ⟨found, _, rest⟩ := Option.bind_eq_some_iff.mp sent
    obtain ⟨vec, _, rest⟩ := Option.bind_eq_some_iff.mp rest
    dsimp only at rest
    split at rest
    · rename_i passed
      cases rest
      exact (of_decide_eq_true passed).2.1
    · cases rest
  | _ => simp [Enrich.Fate.publication] at member

omit [LinearOrder K] in
theorem conveyed_start (d : Deployment K σ) : Conveyed d d.start where
  sized := by simp [Deployment.start, System.enriched, Enrich.Deployment.start]
  origin := by simp [Deployment.start, System.enriched, Enrich.Deployment.start]
  rows := by simp [Deployment.start]
  acked := by simp [Deployment.start]
  clustered := by simp [Deployment.start, Cluster.AckedClustered]

theorem Conveyed.step (conveyed : Conveyed d system) (event : Event K) :
    Conveyed d (step d system event) := by
  cases event with
  | enrich delivery =>
    cases seen : d.item delivery.seq with
    | none =>
      have same : Pipeline.step d system (.enrich delivery) = system := by
        rw [Pipeline.step, Enrich.step_dropped seen]
      rwa [same]
    | some item =>
      obtain ⟨result, after, handled, _, next⟩ := Enrich.step_handled system.ingest seen
      have grown : (Enrich.step d.toDeployment system.ingest delivery).enriched =
          system.enriched ++ (result.bind Enrich.Fate.publication).toList := by
        rw [next]
        rfl
      refine conveyed.publish grown ?_ ?_
      · exact fun message member => (published_spec handled member).2
      · exact fun message member => ⟨delivery.seq, item, seen, (published_spec handled member).1⟩
  | restart shared =>
    refine conveyed.publish (List.append_nil _).symm ?_ ?_
    · simp
    · simp
  | write seq items =>
    rcases step_write_cases conveyed.sized seq items with same | ⟨message, published, same⟩
    · rw [same]
      exact conveyed
    · rw [same]
      refine conveyed.onward _ fun enriched written => ⟨message, published, ?_⟩
      cases written
      rfl
  | cluster seq attempt =>
    apply conveyed.onward (.deliver seq attempt)
    intro enriched same
    cases same
  | promote storyId =>
    apply conveyed.onward (.promote storyId)
    intro enriched same
    cases same

end Conveyed

/-- What the worker acked, and what its dedup knows, is accounted for. -/
structure Followed (d : Deployment K σ) (events : List (Event K)) : Prop where
  acked : ∀ seq ∈ (run (step d) d.start events).ingest.acked, ∀ item ∈ d.item seq,
    Accounted d events (Published (run (step d) d.start events)) (Enrich.dedupKey item)
  known : ∀ key, d.dedup.knows (run (step d) d.start events).ingest.inference.dedup key →
    Accounted d events (Published (run (step d) d.start events)) key

section Followed

variable {d : Deployment K σ} {events : List (Event K)} {key : String}

theorem grows (system : System K σ) (event : Event K) :
    system.ingest.declined ⊆ (step d system event).ingest.declined ∧
      system.enriched ⊆ (step d system event).enriched := by
  have same : system.ingest.declined ⊆ system.ingest.declined ∧
      system.enriched ⊆ system.enriched := ⟨List.Subset.refl _, List.Subset.refl _⟩
  cases event with
  | enrich delivery => exact ⟨List.subset_append_left _ _, List.subset_append_left _ _⟩
  | restart shared => exact same
  | write seq items =>
    unfold step
    dsimp only
    split
    · split <;> exact same
    · exact same
  | cluster seq attempt => exact same
  | promote storyId => exact same

theorem Accounted.later
    (accounted : Accounted d events (Published (run (step d) d.start events)) key)
    (event : Event K) : Accounted d (events ++ [event])
      (Published (run (step d) d.start (events ++ [event]))) key := by
  have initial : events <+: events ++ [event] := List.prefix_append _ _
  obtain ⟨declined, enriched⟩ := grows (d := d) (run (step d) d.start events) event
  rw [← run_concat (step d)] at declined enriched
  obtain ⟨other, same, shed | broke | published⟩ := accounted
  · exact ⟨other, same, .inl (declined shed)⟩
  · obtain ⟨before, delivery, earlier, rest⟩ := broke
    exact ⟨other, same, .inr (.inl ⟨before, delivery, earlier.trans initial, rest⟩)⟩
  · obtain ⟨message, member, own⟩ := published
    exact ⟨other, same, .inr (.inr ⟨message, enriched member, own⟩)⟩

/-- What an attempt acks or records is accounted for. -/
theorem own_accounted (followed : Followed d events) {delivery : Enrich.Delivery K} {item : Item}
    (seen : d.item delivery.seq = some item) {result : Option Enrich.Fate}
    {after : Enrich.Inference K σ}
    (handled : Enrich.Handled d.toWorker delivery.attempt item
      (run (step d) d.start events).ingest.inference result after)
    (next : (run (step d) d.start (events ++ [.enrich delivery])).ingest.enriched =
        (run (step d) d.start events).ingest.enriched ++
          (result.bind Enrich.Fate.publication).toList ∧
      (run (step d) d.start (events ++ [.enrich delivery])).ingest.declined =
        (run (step d) d.start events).ingest.declined ++
          (result.bind (Enrich.Fate.declines item)).toList) :
    let accounted := Accounted d (events ++ [.enrich delivery])
      (Published (run (step d) d.start (events ++ [.enrich delivery]))) (Enrich.dedupKey item)
    let before := (run (step d) d.start events).ingest.inference
    (result.isSome → accounted) ∧ (after.dedup = before.dedup ∨
      after.dedup = d.dedup.record (Enrich.dedupKey item) before.dedup ∧ accounted) := by
  intro accounted before
  have broken (breaks : Enrich.breaksOff d.toWorker delivery.attempt item before) : accounted :=
    ⟨Enrich.dedupKey item, rfl,
      .inr (.inl ⟨events, delivery, List.prefix_refl _, item, seen, rfl, breaks⟩)⟩
  have breaks := Enrich.breaksOff_iff handled
  cases handled with
  | untallied rejected => exact ⟨nofun, .inl rfl⟩
  | duplicate tallied known => exact ⟨fun _ => (followed.known _ known).later _, .inl rfl⟩
  | unscored tallied =>
    exact ⟨nofun, .inr ⟨rfl, broken (breaks.mpr ⟨rfl, by rw [tallied]; rfl⟩)⟩⟩
  | lost tallied =>
    exact ⟨nofun, .inr ⟨rfl, broken (breaks.mpr ⟨rfl, by rw [tallied]; rfl⟩)⟩⟩
  | shed tallied =>
    have own : accounted := by
      refine ⟨Enrich.dedupKey item, rfl, .inl ?_⟩
      rw [next.2]
      exact List.mem_append_right _ List.mem_cons_self
    exact ⟨fun _ => own, .inr ⟨rfl, own⟩⟩
  | @published _ _ _ _ _ _ subject enriched tallied _ _ _ sent =>
    have key := Enrich.dedupKey_same
      ((Enrich.tally_same tallied).trans (Enrich.enrich_spec sent).2.1)
    have own : accounted := by
      refine ⟨Enrich.dedupKey item, rfl, .inr (.inr ⟨(subject, enriched), ?_, key⟩)⟩
      rw [System.enriched, next.1]
      exact List.mem_append_right _ List.mem_cons_self
    exact ⟨fun _ => own, .inr ⟨rfl, own⟩⟩

/-- An event that leaves what is acked and adds nothing to what is known. -/
theorem Followed.quiet (followed : Followed d events) {event : Event K}
    (acked : (step d (run (step d) d.start events) event).ingest.acked =
      (run (step d) d.start events).ingest.acked)
    (known : ∀ key,
      d.dedup.knows (step d (run (step d) d.start events) event).ingest.inference.dedup key →
        d.dedup.knows (run (step d) d.start events).ingest.inference.dedup key) :
    Followed d (events ++ [event]) := by
  refine ⟨fun seq member item sent => ?_, fun key old => ?_⟩
  · rw [run_concat, acked] at member
    exact (followed.acked seq member item sent).later event
  · rw [run_concat] at old
    exact (followed.known key (known key old)).later event

/-- An attempt at an item, whatever becomes of it. -/
theorem Followed.attempted (followed : Followed d events) {delivery : Enrich.Delivery K}
    {item : Item} (seen : d.item delivery.seq = some item) :
    Followed d (events ++ [.enrich delivery]) := by
  obtain ⟨result, after, handled, _, next⟩ :=
    Enrich.step_handled (run (step d) d.start events).ingest seen
  have ingest := congrArg System.ingest (run_concat (step d) d.start events (.enrich delivery))
  rw [step, next] at ingest
  obtain ⟨ended, recorded⟩ := own_accounted followed seen handled
    (by rw [ingest]; exact ⟨rfl, rfl⟩)
  refine ⟨fun seq member other sent => ?_, fun key known => ?_⟩
  · rw [ingest] at member
    dsimp only at member
    split at member
    · rename_i returned
      rcases Finset.mem_insert.mp member with rfl | old
      · cases seen.symm.trans sent
        exact ended returned
      · exact (followed.acked seq old other sent).later _
    · exact (followed.acked seq member other sent).later _
  · rw [ingest] at known
    dsimp only at known
    rcases recorded with same | ⟨same, own⟩
    · rw [same] at known
      exact (followed.known key known).later _
    · rw [same] at known
      rcases d.dedup.of_knows_record _ _ _ known with equal | old
      · obtain ⟨other, kept, settled⟩ := own
        exact ⟨other, kept.trans equal.symm, settled⟩
      · exact (followed.known key old).later _

/-- A restart forgets what is known where the dedup is the worker's own. -/
theorem Followed.restarted (followed : Followed d events) (shared : Bool) :
    Followed d (events ++ [.restart shared]) := by
  refine followed.quiet rfl fun key known => ?_
  cases shared with
  | true => exact known
  | false =>
    have forgotten : d.dedup.knows d.dedup.empty key = true := known
    rw [d.dedup.knows_empty] at forgotten
    cases forgotten

theorem Followed.step (followed : Followed d events) (event : Event K) :
    Followed d (events ++ [event]) := by
  -- only an attempt acks or records; the other parts of the system read what it published
  cases event with
  | enrich delivery =>
    cases seen : d.item delivery.seq with
    | none =>
      have same : Pipeline.step d (run (Pipeline.step d) d.start events) (.enrich delivery) =
          run (Pipeline.step d) d.start events := by
        rw [Pipeline.step, Enrich.step_dropped seen]
      exact followed.quiet (by rw [same]) (by rw [same]; exact fun _ known => known)
    | some item => exact followed.attempted seen
  | restart shared => exact followed.restarted shared
  | write seq items =>
    have same : (Pipeline.step d (run (Pipeline.step d) d.start events) (.write seq items)).ingest =
        (run (Pipeline.step d) d.start events).ingest := by
      unfold Pipeline.step
      dsimp only
      split
      · split <;> rfl
      · rfl
    exact followed.quiet (by rw [same]) (by rw [same]; exact fun _ known => known)
  | cluster seq attempt => exact followed.quiet rfl fun _ known => known
  | promote storyId => exact followed.quiet rfl fun _ known => known

theorem follows (d : Deployment K σ) (events : List (Event K)) : Followed d events := by
  induction events using List.reverseRecOn with
  | nil =>
    refine ⟨fun seq none => absurd none (Finset.notMem_empty _), fun key known => ?_⟩
    have unknown := d.dedup.knows_empty key
    rw [show d.dedup.knows d.dedup.empty key = true from known] at unknown
    cases unknown
  | append_singleton before event ih => exact ih.step event

end Followed

section Drain

variable {d : Deployment K σ} {system : System K σ}

theorem run_turns (turns : List (ℕ × Cluster.Attempt)) :
    run (step d) system (turns.map fun turn => .cluster turn.1 turn.2) =
      { system with
        stories := run (Cluster.step (d.outlet system.enriched)) system.stories
          (turns.map fun turn => .deliver turn.1 turn.2) } := by
  induction turns generalizing system with
  | nil => rfl
  | cons turn rest ih => exact ih

theorem stored_written {store : Store} (enriched : EnrichedItem) :
    Cluster.Stored (Cluster.insertItem store enriched) enriched.item.key := by
  rw [Cluster.insertItem]
  split
  · rename_i there
    obtain ⟨row, member, same⟩ := List.any_eq_true.mp there
    exact ⟨row, member, of_decide_eq_true same⟩
  · exact ⟨_, List.mem_append_right _ (List.mem_singleton_self _), rfl⟩

/-- Writing changes nothing of the streams, keeps what is stored, and stores what is published
and finds its partition. -/
theorem run_writes (conveyed : Conveyed d system) (writes : List (ℕ × Provision)) :
    let after := run (step d) system (writes.map fun write => .write write.1 write.2)
    after.ingest = system.ingest ∧
      (∀ key, Cluster.Stored system.stories.store key → Cluster.Stored after.stories.store key) ∧
        ∀ write ∈ writes, ∀ message ∈ system.enriched[write.1]?,
          write.2.places message.2.item.tsObserved = true →
            Cluster.Stored after.stories.store message.2.item.key := by
  induction writes generalizing system with
  | nil => exact ⟨rfl, fun _ stored => stored, nofun⟩
  | cons write rest ih =>
    obtain ⟨ingest, kept, written⟩ := ih (conveyed.step (.write write.1 write.2))
    rw [List.map_cons, run_cons]
    have same : (step d system (.write write.1 write.2)).ingest = system.ingest := by
      rcases step_write_cases conveyed.sized write.1 write.2 with same | ⟨message, _, same⟩
      · rw [same]
      · rw [same]
        rfl
    have log : (step d system (.write write.1 write.2)).enriched = system.enriched :=
      congrArg Enrich.System.enriched same
    refine ⟨ingest.trans same, fun key stored => kept key ?_, fun other member message there
      places => ?_⟩
    · rcases step_write_cases conveyed.sized write.1 write.2 with same | ⟨message, _, same⟩
      · rwa [same]
      · rw [same]
        exact Cluster.stored_insertItem stored message.2
    · rcases List.mem_cons.mp member with rfl | later
      · refine kept _ ?_
        rw [step_write_places conveyed.sized there places]
        exact stored_written message.2
      · refine written other later message ?_ places
        rwa [log]

theorem conveyed_run (d : Deployment K σ) (events : List (Event K)) :
    Conveyed d (run (step d) d.start events) := by
  have along : Along (step d) (fun _ _ => True) d.start events := along_of_forall fun _ _ => trivial
  exact along.invariant (Conveyed d) (conveyed_start d) fun _ event holds _ => holds.step event

/-- With all that is published written, visits that find their partitions settle it. -/
theorem drain (conveyed : Conveyed d system) (valid : ∀ seq, ∀ item ∈ d.item seq, item.Valid)
    {turns : List (ℕ × Cluster.Visit)}
    (stored : ∀ message ∈ system.enriched,
      Cluster.Stored system.stories.store message.2.item.key)
    (placed : Along (Cluster.visitStep (d.outlet system.enriched))
      (Cluster.Placed (d.outlet system.enriched)) system.stories turns) :
    let final := run (step d) system (((d.outlet system.enriched).attempts system.stories
      turns).map fun turn => .cluster turn.1 turn.2)
    final.ingest = system.ingest ∧ ∀ turn ∈ turns, turn.1 < system.enriched.length →
      turn.1 ∈ final.stories.acked ∧ turn.1 ∉ final.stories.waiting := by
  have item (seq : ℕ) : (d.outlet system.enriched).item seq =
      system.enriched[seq]?.map Prod.snd := item_outlet conveyed.sized seq
  have ready : ∀ turn ∈ turns,
      Cluster.Ready (d.outlet system.enriched) system.stories turn.1 := by
    intro turn _ enriched sent
    rw [item] at sent
    obtain ⟨message, found, rfl⟩ := Option.map_eq_some_iff.mp sent
    obtain ⟨seq, source, arrived, same⟩ := conveyed.origin message (List.mem_of_getElem? found)
    refine ⟨stored message (List.mem_of_getElem? found), ?_⟩
    rw [same.text]
    exact (valid seq source arrived).2.2.1
  have settled := (Cluster.visits_settle turns ready placed).2.2
  dsimp only
  rw [run_turns, Cluster.run_attempts]
  refine ⟨rfl, fun turn listed here => ?_⟩
  obtain ⟨rested, acked⟩ := settled turn listed
  refine ⟨acked ?_, rested⟩
  rw [item, List.getElem?_eq_getElem here]
  rfl

end Drain

section Rooted

variable {d : Deployment K σ} {system : System K σ}

omit [LinearOrder K] in
/-- Only a published message waits. -/
theorem waits_published (conveyed : Conveyed d system) {seq : ℕ} {enriched : EnrichedItem}
    (sent : enriched ∈ (d.outlet system.enriched).item seq) : seq < system.enriched.length := by
  rw [item_outlet conveyed.sized] at sent
  obtain ⟨message, found, _⟩ := Option.map_eq_some_iff.mp sent
  exact (List.getElem?_eq_some_iff.mp found).1

omit [LinearOrder K] in
/-- A message that waits still does when ENRICHED has grown. -/
theorem waits_grown (conveyed : Conveyed d system) (more : List (String × EnrichedItem))
    {key : Uuid × Int}
    (waits : Cluster.Waits (d.outlet system.enriched) system.stories key) :
    Cluster.Waits (d.outlet (system.enriched ++ more)) system.stories key := by
  obtain ⟨seq, waiting, enriched, sent, same⟩ := waits
  refine ⟨seq, waiting, enriched, ?_, same⟩
  rwa [item_outlet_append (waits_published conveyed sent)]

omit [LinearOrder K] in
/-- What is published is told of once all of it is settled. -/
theorem told_settled (conveyed : Conveyed d system)
    (settled : ∀ seq < system.enriched.length,
      seq ∈ system.stories.acked ∧ seq ∉ system.stories.waiting)
    {message : String × EnrichedItem} (member : message ∈ system.enriched) :
    Cluster.Clustered system.stories.store message.2.item.key ∧
      (Cluster.RootedOrWaiting (d.outlet system.enriched) system.stories →
        Cluster.Filed system.stories.store message.2.item.key) := by
  obtain ⟨index, found⟩ := List.mem_iff_getElem?.mp member
  have here := (List.getElem?_eq_some_iff.mp found).1
  have clustered := conveyed.clustered index (settled index here).1 message.2 (by
    rw [item_outlet conveyed.sized, found]
    rfl)
  refine ⟨clustered, fun rooted => (rooted.filed clustered).resolve_left ?_⟩
  rintro ⟨seq, waiting, enriched, sent, _⟩
  exact (settled seq (waits_published conveyed sent)).2 waiting

theorem rooted_step (conveyed : Conveyed d system) {event : Event K}
    (holds : Cluster.RootedOrWaiting (d.outlet system.enriched) system.stories)
    (rooted : Rooted d system event) :
    Cluster.RootedOrWaiting (d.outlet (step d system event).enriched)
      (step d system event).stories := by
  cases event with
  | enrich delivery =>
    intro row member storyId assigned
    exact (holds row member storyId assigned).imp_left (waits_grown conveyed _)
  | restart shared => exact holds
  | write seq items =>
    rcases step_write_cases conveyed.sized seq items with same | ⟨message, _, same⟩
    · rwa [same]
    · rw [same]
      exact Cluster.step_rootedOrWaiting holds trivial
  | cluster seq attempt => exact Cluster.step_rootedOrWaiting holds rooted
  | promote storyId => exact Cluster.step_rootedOrWaiting holds trivial

theorem rooted_run {events : List (Event K)}
    (rooted : Along (step d) (Rooted d) d.start events) :
    Cluster.RootedOrWaiting (d.outlet (run (step d) d.start events).enriched)
      (run (step d) d.start events).stories := by
  refine (rooted.invariant (fun system => Conveyed d system ∧
    Cluster.RootedOrWaiting (d.outlet system.enriched) system.stories)
      ⟨conveyed_start d, fun row none => absurd none List.not_mem_nil⟩ ?_).2
  exact fun system event holds meets => ⟨holds.1.step event, rooted_step holds.1 holds.2 meets⟩

end Rooted

/-- All rows come from INGEST, at every moment. And whatever has failed so far, once the writer
stored what is on ENRICHED and the cluster service was visited with each message and found the
partitions, in any order, every acked message of INGEST is assigned to a Story: it, or one that
the dedup does not tell from it, unless that was shed or its attempt raised past the dedup. If no
attempt joined a Story without a row, the Story has one. -/
theorem ingest_reaches_stories (d : Deployment K σ) (events : List (Event K))
    (valid : ∀ seq, ∀ item ∈ d.item seq, item.Valid) :
    (∀ row ∈ (run (step d) d.start events).stories.store.items,
      ∃ seq, ∃ item ∈ d.item seq, SameReport item row.item) ∧
    ∀ (writes : List (ℕ × Provision)) (turns : List (ℕ × Cluster.Visit)),
      let published := (run (step d) d.start events).enriched
      let written := events ++ writes.map fun write => .write write.1 write.2
      let stories := (run (step d) d.start written).stories
      (∀ (seq : ℕ) (here : seq < published.length),
        (∃ write ∈ writes, write.1 = seq ∧
          write.2.places published[seq].2.item.tsObserved = true) ∧
          ∃ turn ∈ turns, turn.1 = seq) →
      Along (Cluster.visitStep (d.outlet published)) (Cluster.Placed (d.outlet published)) stories
        turns →
      let drained := written ++
        ((d.outlet published).attempts stories turns).map fun turn => .cluster turn.1 turn.2
      let final := run (step d) d.start drained
      ∀ seq ∈ final.ingest.acked, ∀ item ∈ d.item seq,
        Accounted d drained (Told Cluster.Clustered final) (Enrich.dedupKey item) ∧
          (Along (step d) (Rooted d) d.start drained →
            Accounted d drained (Told Cluster.Filed final) (Enrich.dedupKey item)) := by
  have conveyed := conveyed_run d events
  constructor
  · intro row member
    obtain ⟨message, published, same⟩ := conveyed.rows row member
    rw [same]
    exact conveyed.origin message published
  intro writes turns published written stories covered placed drained final seq acked item sent
  obtain ⟨ingest, _, storing⟩ := run_writes conveyed writes
  have log : (run (step d) d.start written).enriched = published := by
    rw [run_append]
    exact congrArg Enrich.System.enriched ingest
  have stored : ∀ message ∈ published, Cluster.Stored stories.store message.2.item.key := by
    intro message member
    obtain ⟨index, here, rfl⟩ := List.mem_iff_getElem.mp member
    obtain ⟨⟨write, listed, rfl, places⟩, _⟩ := covered index here
    have there := storing write listed _ (List.getElem?_eq_getElem here) places
    rwa [← run_append] at there
  have settled := drain (conveyed_run d written) valid (by rwa [log]) (by rwa [log])
  rw [log, ← run_append] at settled
  obtain ⟨same, settled⟩ := settled
  have whole : final.enriched = published := (congrArg Enrich.System.enriched same).trans log
  have visited : ∀ index < final.enriched.length,
      index ∈ final.stories.acked ∧ index ∉ final.stories.waiting := by
    intro index here
    rw [whole] at here
    obtain ⟨_, turn, listed, rfl⟩ := covered index here
    exact settled turn listed here
  obtain ⟨other, kept, shed | broke | ⟨message, member, own⟩⟩ :=
    (follows d drained).acked seq acked item sent
  · exact ⟨⟨other, kept, .inl shed⟩, fun _ => ⟨other, kept, .inl shed⟩⟩
  · exact ⟨⟨other, kept, .inr (.inl broke)⟩, fun _ => ⟨other, kept, .inr (.inl broke)⟩⟩
  · obtain ⟨clustered, filed⟩ := told_settled (conveyed_run d drained) visited member
    exact ⟨⟨other, kept, .inr (.inr ⟨message, member, own, clustered⟩)⟩, fun rooted =>
      ⟨other, kept, .inr (.inr ⟨message, member, own, filed (rooted_run rooted)⟩)⟩⟩

/-- Two notices on INGEST. -/
def notices : Deployment ℚ (List String) where
  toDeployment := Enrich.replicaOf (Dedup.inMemory 50000 (Nat.succ_pos _))
    [("ingest.usgs", notice 1 "usgs" "quake"), ("ingest.noaa", notice 2 "noaa" "flood")]
  pg := Cluster.plainPostgres

/-- The first publish fails and the worker starts anew; the cluster service is too early for one
notice and breaks off at the other. -/
def stumbling : List (Event ℚ) :=
  [.enrich ⟨0, { Enrich.plainAttempt with sent := false }⟩, .restart false,
    .enrich ⟨1, Enrich.plainAttempt⟩, .cluster 0 { draw := ⟨0, 7⟩ }, .write 0 {},
    .enrich ⟨0, Enrich.plainAttempt⟩, .cluster 0 { draw := ⟨0, 8⟩, cut := some 2 }]

def writes : List (ℕ × Provision) := [(0, {}), (1, {})]

def visits : List (ℕ × Cluster.Visit) := [(1, { draw := ⟨0, 9⟩ }), (0, { draw := ⟨0, 10⟩ })]

/-- Both notices are written then. -/
def written : List (Event ℚ) := stumbling ++ writes.map fun write => .write write.1 write.2

/-- And both are visited. -/
def drained : List (Event ℚ) :=
  written ++ ((notices.outlet (run (step notices) notices.start stumbling).enriched).attempts
    (run (step notices) notices.start written).stories visits).map
      fun turn => .cluster turn.1 turn.2

theorem ingest_reaches_stories_stumbling :
    let final := run (step notices) notices.start drained
    (0 ∈ final.ingest.acked ∧ 1 ∈ final.ingest.acked) ∧
      ∀ seq ∈ final.ingest.acked, ∀ item ∈ notices.item seq,
        Accounted notices drained (Told Cluster.Filed final) (Enrich.dedupKey item) := by
  intro final
  have valid : ∀ seq, ∀ item ∈ notices.item seq, item.Valid := by
    intro seq item sent
    have listed : item ∈ [notice 1 "usgs" "quake", notice 2 "noaa" "flood"] := by
      refine List.mem_of_getElem? (i := seq) ?_
      rw [← Option.mem_def.mp sent]
      match seq with
      | 0 => rfl
      | 1 => rfl
      | _ + 2 => rfl
    have each : ∀ item ∈ [notice 1 "usgs" "quake", notice 2 "noaa" "flood"], item.Valid := by
      decide
    exact each item listed
  have rooted : Along (step notices) (Rooted notices) notices.start drained := by decide +kernel
  refine ⟨by decide +kernel, fun seq acked item sent => ?_⟩
  exact ((ingest_reaches_stories notices stumbling valid).2 writes visits
    (by decide +kernel) (by decide +kernel) seq acked item sent).2 rooted

end NewsAggregator.Pipeline
