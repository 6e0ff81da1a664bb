import NewsAggregator.Cluster.Claimx
import NewsAggregator.Foundation.Discipline
import NewsAggregator.Foundation.Run
import NewsAggregator.Trust.Matching

/-! The way of a claim from the queue of the cluster service over the extractor to the trust
worker, and how much of it is up to the model. -/

namespace NewsAggregator.Trust

open Bus Cluster Foundation Ingest

/-- What the extractor and the trust worker run on. -/
structure Workers where
  rt : Runtime
  enc : WireEncoding
  pg : Postgres
  cfg : MatcherConfig := {}

/-- The tables and `llm.heavy`, the stream of the results, and what the trust worker is
at. -/
structure Pipeline where
  store : Store := {}
  claims : List ClaimResult := []
  matching : Program Stmt Unit := .done ()

/-- Others change the tables or queue requests; the extractor gets a request, the model
replies to it and the broker stores the result or not; the trust worker gets a result,
makes its next statement, or fails. A message may be delivered any number of times. -/
inductive PipelineEvent where
  | change (store : Store)
  | extract (index : ℕ) (raw : PyStr) (stored : Bool)
  | take (index : ℕ)
  | advance (surfaced : List (Uuid × Int))
  | abort

namespace Workers

variable (workers : Workers)

/-- `ClaimExtractor.handle` behind its consumer. -/
def extract (pipeline : Pipeline) (index : ℕ) (raw : PyStr) (stored : Bool) : Pipeline :=
  match pipeline.store.heavy[index]?.bind fun req =>
    accepted maxMsgBytes (requestMessage workers.enc req) with
  | none => pipeline
  | some req =>
    match claimOf workers.rt req raw with
    | .error _ => pipeline
    | .ok result =>
      let msg := resultMessage workers.enc result
      if claimPublisher.publish msg.subject msg.size stored then
        { pipeline with claims := pipeline.claims ++ [result] }
      else pipeline

/-- The next message of the trust worker. -/
def take (pipeline : Pipeline) (index : ℕ) : Pipeline :=
  match pipeline.matching with
  | .call _ _ => pipeline
  | _ =>
    match pipeline.claims[index]?.bind fun claim =>
      accepted maxMsgBytes (resultMessage workers.enc claim) with
    | none => pipeline
    | some claim => { pipeline with matching := matchClaim workers.rt.toPython workers.cfg claim }

/-- Its next statement. -/
def advance (pipeline : Pipeline) (surfaced : List (Uuid × Int)) : Pipeline :=
  match pipeline.matching with
  | .call stmt next =>
    let (answer, store) := exec workers.rt.toPython workers.pg surfaced _ stmt pipeline.store
    { pipeline with store, matching := next answer }
  | _ => pipeline

def step (pipeline : Pipeline) : PipelineEvent → Pipeline
  | .change store => { pipeline with store }
  | .extract index raw stored => workers.extract pipeline index raw stored
  | .take index => workers.take pipeline index
  | .advance surfaced => workers.advance pipeline surfaced
  | .abort => { pipeline with matching := .raise }

/-- All that is left of a reply: that it is no valid claim, or whether it says something. -/
def verdict (raw : PyStr) : Option Bool :=
  let claim : PyStr := (stripStr workers.rt raw).take 2048
  if claim.Encodes then some (workers.rt.toPython.strip claim.text ≠ "") else none

/-- The same but for the words of the model. -/
def Alike : PipelineEvent → PipelineEvent → Prop
  | .extract index raw stored, .extract index' raw' stored' =>
    index = index' ∧ stored = stored' ∧ workers.verdict raw = workers.verdict raw'
  | event, other => event = other

/-- Results of the same item that both say something, or neither does. -/
structure SameClaim (claim other : ClaimResult) : Prop where
  story : claim.storyId = other.storyId
  item : claim.itemId = other.itemId
  blank : workers.rt.toPython.strip claim.claim = "" ↔ workers.rt.toPython.strip other.claim = ""

/-- Two pipelines with the same tables and the same future. -/
structure Matched (pipeline other : Pipeline) : Prop where
  store : pipeline.store = other.store
  matching : pipeline.matching = other.matching
  claims : List.Forall₂ workers.SameClaim pipeline.claims other.claims

end Workers

section Interference

variable {workers : Workers} {pipeline other : Pipeline}

theorem matchClaim_congr {claim same : ClaimResult} (alike : workers.SameClaim claim same) :
    matchClaim workers.rt.toPython workers.cfg claim =
      matchClaim workers.rt.toPython workers.cfg same := by
  unfold matchClaim
  rw [alike.story, alike.item]
  simp only [alike.blank]

theorem claimOf_ok (req : ClaimRequest) {raw : PyStr} {bit : Bool}
    (left : workers.verdict raw = some bit) : ∃ result, claimOf workers.rt req raw = .ok result ∧
      result.storyId = req.storyId ∧ result.itemId = req.itemId ∧
        (workers.rt.toPython.strip result.claim = "" ↔ bit = false) := by
  unfold Workers.verdict at left
  unfold claimOf
  dsimp only at left ⊢
  split at left
  · rename_i encodes
    obtain rfl := Option.some.inj left
    rw [if_pos encodes]
    exact ⟨_, rfl, rfl, rfl, by simp⟩
  · cases left

theorem claimOf_error {req : ClaimRequest} {raw : PyStr} (left : workers.verdict raw = none) :
    claimOf workers.rt req raw = .error .validationError := by
  unfold Workers.verdict at left
  unfold claimOf
  dsimp only at left ⊢
  split at left
  · cases left
  · rename_i invalid
    rw [if_neg invalid]

theorem accepted_request (req : ClaimRequest) :
    accepted maxMsgBytes (requestMessage workers.enc req) = some req := by
  rw [accepted, if_neg (Nat.not_lt.mpr (request_fits workers.enc req)), requestMessage]

theorem accepted_result (claim : ClaimResult) :
    accepted maxMsgBytes (resultMessage workers.enc claim) = some claim := by
  rw [accepted, if_neg (Nat.not_lt.mpr (result_fits workers.enc claim)), resultMessage]

theorem publish_result (claim : ClaimResult) (stored : Bool) :
    claimPublisher.publish (resultMessage workers.enc claim).subject
      (resultMessage workers.enc claim).size stored = stored := by
  have allowed : claimPublisher.allowedPrefix.toList <+:
      (resultMessage workers.enc claim).subject.toList := by
    have under : "claim.".toList <+: "claim.extracted".toList := by decide
    exact under
  have fits : (resultMessage workers.enc claim).size ≤ claimPublisher.maxMsgBytes :=
    result_fits workers.enc claim
  simp [ScopedPublisher.publish, allowed, fits]

/-- No message is lost to a cap. -/
theorem extract_eq (pipeline : Pipeline) (index : ℕ) (raw : PyStr) (stored : Bool) :
    workers.extract pipeline index raw stored =
      match pipeline.store.heavy[index]?, stored with
      | some req, true =>
        match claimOf workers.rt req raw with
        | .error _ => pipeline
        | .ok result => { pipeline with claims := pipeline.claims ++ [result] }
      | _, _ => pipeline := by
  unfold Workers.extract
  cases pipeline.store.heavy[index]? with
  | none => rfl
  | some req =>
    rw [Option.bind_some, accepted_request]
    cases stored with
    | false =>
      dsimp only
      cases claimOf workers.rt req raw with
      | error _ => rfl
      | ok result =>
        dsimp only
        rw [publish_result]
        rfl
    | true =>
      dsimp only
      cases claimOf workers.rt req raw with
      | error _ => rfl
      | ok result =>
        dsimp only
        rw [publish_result]
        rfl

theorem take_eq (pipeline : Pipeline) (index : ℕ) :
    workers.take pipeline index =
      match pipeline.matching, pipeline.claims[index]? with
      | .call _ _, _ => pipeline
      | _, none => pipeline
      | _, some claim => { pipeline with
          matching := matchClaim workers.rt.toPython workers.cfg claim } := by
  unfold Workers.take
  cases pipeline.matching <;> cases pipeline.claims[index]? <;>
    simp [accepted_result]

theorem Workers.Matched.extract (matched : workers.Matched pipeline other) (index : ℕ)
    {raw same : PyStr} (stored : Bool) (alike : workers.verdict raw = workers.verdict same) :
    workers.Matched (workers.extract pipeline index raw stored)
      (workers.extract other index same stored) := by
  rw [extract_eq, extract_eq, ← matched.store]
  cases pipeline.store.heavy[index]? with
  | none => exact matched
  | some req =>
    cases stored with
    | false => exact matched
    | true =>
      dsimp only
      cases left : workers.verdict raw with
      | none =>
        rw [claimOf_error left, claimOf_error (alike.symm.trans left)]
        exact matched
      | some bit =>
        obtain ⟨result, extracted, story, item, blank⟩ := claimOf_ok req left
        obtain ⟨twin, again, story', item', blank'⟩ := claimOf_ok req
          (alike.symm.trans left)
        rw [extracted, again]
        refine ⟨rfl, matched.matching, ?_⟩
        apply List.rel_append matched.claims
        exact .cons ⟨story.trans story'.symm, item.trans item'.symm, blank.trans blank'.symm⟩ .nil

theorem related_at {α β : Type} {related : α → β → Prop} {xs : List α} {ys : List β}
    (each : List.Forall₂ related xs ys) (index : ℕ) :
    xs[index]? = none ∧ ys[index]? = none ∨
      ∃ x y, xs[index]? = some x ∧ ys[index]? = some y ∧ related x y := by
  induction each generalizing index with
  | nil => exact .inl ⟨rfl, rfl⟩
  | cons here _ ih =>
    cases index with
    | zero => exact .inr ⟨_, _, rfl, rfl, here⟩
    | succ index => simpa using ih index

theorem Workers.Matched.take (matched : workers.Matched pipeline other) (index : ℕ) :
    workers.Matched (workers.take pipeline index) (workers.take other index) := by
  rw [take_eq, take_eq, ← matched.matching]
  rcases related_at matched.claims index with ⟨none, none'⟩ | ⟨claim, twin, here, there, alike⟩
  · rw [none, none']
    cases pipeline.matching <;> exact matched
  · rw [here, there]
    cases pipeline.matching with
    | call stmt next => exact matched
    | _ => exact ⟨matched.store, matchClaim_congr alike, matched.claims⟩

theorem Workers.Matched.advance (matched : workers.Matched pipeline other)
    (surfaced : List (Uuid × Int)) :
    workers.Matched (workers.advance pipeline surfaced) (workers.advance other surfaced) := by
  unfold Workers.advance
  rw [← matched.matching, ← matched.store]
  cases pipeline.matching with
  | call stmt next => exact ⟨rfl, rfl, matched.claims⟩
  | _ => exact matched

theorem Workers.Matched.step (matched : workers.Matched pipeline other)
    {event same : PipelineEvent} (alike : workers.Alike event same) :
    workers.Matched (workers.step pipeline event) (workers.step other same) := by
  cases event with
  | extract index raw stored =>
    cases same with
    | extract index' raw' stored' =>
      obtain ⟨rfl, rfl, heard⟩ := alike
      exact matched.extract index stored heard
    | _ => cases alike
  | change store =>
    obtain rfl : .change store = same := alike
    exact ⟨rfl, matched.matching, matched.claims⟩
  | take index =>
    obtain rfl : .take index = same := alike
    exact matched.take index
  | advance surfaced =>
    obtain rfl : .advance surfaced = same := alike
    exact matched.advance surfaced
  | abort =>
    obtain rfl : .abort = same := alike
    exact ⟨matched.store, rfl, matched.claims⟩

end Interference

namespace Workers

variable (workers : Workers)

/-- The Story a statement promotes. -/
def promoted {β : Type} : Stmt β → Option Uuid
  | .promotePrimaryBacked storyId => some storyId
  | _ => none

/-- The Story the event promotes. -/
def promotes (pipeline : Pipeline) : PipelineEvent → Option Uuid
  | .advance _ =>
    match pipeline.matching with
    | .call stmt _ => promoted stmt
    | _ => none
  | _ => none

/-- Others leave the queued requests in the queue. -/
def Keeps (pipeline : Pipeline) : PipelineEvent → Prop
  | .change store => pipeline.store.heavy ⊆ store.heavy
  | _ => True

/-- A claim of the item of this Story was asked for. -/
def Requested (pipeline : Pipeline) (storyId : Uuid) : Prop :=
  ∃ req ∈ pipeline.store.heavy, req.storyId = storyId

/-- A program that only promotes such Stories. -/
def promoting (asked : Uuid → Prop) : Discipline Stmt Unit where
  observe _ _ _ _ := ()
  allows _ _ stmt := ∀ storyId ∈ promoted stmt, asked storyId

/-- Every result answers a request, and so does what the trust worker is at. -/
structure Answers (pipeline : Pipeline) : Prop where
  claims : ∀ claim ∈ pipeline.claims, Requested pipeline claim.storyId
  matching : (promoting (Requested pipeline)).Obeys (fun _ _ => True) () pipeline.matching

end Workers

section Requests

variable {workers : Workers} {pipeline other : Pipeline}

theorem obeys_promoting_mono {asked more : Uuid → Prop} {program : Program Stmt Unit}
    (implies : ∀ storyId, asked storyId → more storyId)
    (obeys : (Workers.promoting asked).Obeys (fun _ _ => True) () program) :
    (Workers.promoting more).Obeys (fun _ _ => True) () program := by
  induction program with
  | done value => trivial
  | raise => trivial
  | call stmt next ih =>
    exact ⟨fun storyId promotes => implies storyId (obeys.1 storyId promotes),
      fun answer => ih answer (obeys.2 answer)⟩

theorem obeys_matchClaim {asked : Uuid → Prop} {claim : ClaimResult}
    (requested : asked claim.storyId) :
    (Workers.promoting asked).Obeys (fun _ _ => True) ()
      (matchClaim workers.rt.toPython workers.cfg claim) := by
  simp only [matchClaim, Program.perform_bind]
  split
  · trivial
  · refine ⟨fun _ none => (by cases none), fun found => ?_⟩
    cases found with
    | none => trivial
    | some item =>
      dsimp only
      split
      · trivial
      · split
        · trivial
        · split
          · trivial
          · refine ⟨fun _ none => (by cases none), fun rows => ?_⟩
            dsimp only
            split
            · trivial
            · refine ⟨fun storyId promotes => ?_, fun _ => trivial⟩
              obtain rfl := Option.some.inj promotes
              exact requested

theorem heavy_exec (workers : Workers) {β : Type} (stmt : Stmt β)
    (surfaced : List (Uuid × Int)) (store : Store) :
    store.heavy ⊆ (exec workers.rt.toPython workers.pg surfaced β stmt store).2.heavy := by
  cases stmt with
  | publishHeavy req => exact List.subset_append_left _ _
  | insertItem enriched =>
    simp only [exec, insertItem]
    split <;> exact List.Subset.refl _
  | createStory =>
    simp only [exec, createStory]
    split <;> exact List.Subset.refl _
  | touchStory =>
    simp only [exec, touchStory]
    split <;> exact List.Subset.refl _
  | _ => exact List.Subset.refl _

theorem Workers.Requested.mono {storyId : Uuid} (requested : Workers.Requested pipeline storyId)
    (subset : pipeline.store.heavy ⊆ other.store.heavy) : Workers.Requested other storyId :=
  let ⟨req, queued, story⟩ := requested
  ⟨req, subset queued, story⟩

theorem Workers.Answers.mono (answers : Workers.Answers pipeline)
    (subset : pipeline.store.heavy ⊆ other.store.heavy) (claims : other.claims = pipeline.claims)
    (matching : other.matching = pipeline.matching) : Workers.Answers other where
  claims claim member := (answers.claims claim (claims ▸ member)).mono subset
  matching := matching ▸ obeys_promoting_mono (fun _ asked => asked.mono subset) answers.matching

theorem Workers.Answers.extract (answers : Workers.Answers pipeline) (index : ℕ) (raw : PyStr)
    (stored : Bool) : Workers.Answers (workers.extract pipeline index raw stored) := by
  rw [extract_eq]
  cases queued : pipeline.store.heavy[index]? with
  | none => exact answers
  | some req =>
    cases stored with
    | false => exact answers
    | true =>
      dsimp only
      cases verdict : workers.verdict raw with
      | none =>
        rw [claimOf_error verdict]
        exact answers
      | some bit =>
        obtain ⟨result, extracted, story, _⟩ := claimOf_ok req verdict
        rw [extracted]
        refine ⟨fun claim member => ?_, answers.matching⟩
        rcases List.mem_append.mp member with old | new
        · exact answers.claims claim old
        · rw [List.mem_singleton.mp new]
          exact ⟨req, List.mem_of_getElem? queued, story.symm⟩

theorem Workers.Answers.take (answers : Workers.Answers pipeline) (index : ℕ) :
    Workers.Answers (workers.take pipeline index) := by
  rw [take_eq]
  cases listed : pipeline.claims[index]? with
  | none => cases pipeline.matching <;> exact answers
  | some claim =>
    have requested := answers.claims claim (List.mem_of_getElem? listed)
    cases pipeline.matching with
    | call stmt next => exact answers
    | _ => exact ⟨answers.claims, obeys_matchClaim requested⟩

theorem Workers.Answers.advance (answers : Workers.Answers pipeline)
    (surfaced : List (Uuid × Int)) : Workers.Answers (workers.advance pipeline surfaced) := by
  unfold Workers.advance
  cases current : pipeline.matching with
  | call stmt next =>
    have obeys := answers.matching
    rw [current] at obeys
    have subset := heavy_exec workers stmt surfaced pipeline.store
    refine ⟨fun claim member => (answers.claims claim member).mono subset, ?_⟩
    exact obeys_promoting_mono (fun _ asked => asked.mono subset) (obeys.2 _)
  | _ => exact answers

theorem Workers.Answers.step (answers : Workers.Answers pipeline) {event : PipelineEvent}
    (keeps : Workers.Keeps pipeline event) : Workers.Answers (workers.step pipeline event) := by
  cases event with
  | change store => exact answers.mono keeps rfl rfl
  | extract index raw stored => exact answers.extract index raw stored
  | take index => exact answers.take index
  | advance surfaced => exact answers.advance surfaced
  | abort => exact ⟨answers.claims, trivial⟩

/-- What is promoted was asked for. -/
theorem Workers.Answers.promotes (answers : Workers.Answers pipeline) {event : PipelineEvent}
    {storyId : Uuid} (promotes : storyId ∈ Workers.promotes pipeline event) :
    Workers.Requested pipeline storyId := by
  cases event with
  | advance surfaced =>
    have obeys := answers.matching
    unfold Workers.promotes at promotes
    cases current : pipeline.matching with
    | call stmt next =>
      rw [current] at obeys promotes
      exact obeys.1 storyId promotes
    | done value =>
      rw [current] at promotes
      cases promotes
    | raise =>
      rw [current] at promotes
      cases promotes
  | _ => cases promotes

end Requests

/-- The model only decides whether a claim comes through. Whatever it writes, the tables
are the same as with any other words of which as much is left. And every Story that the
trust worker promotes is one the cluster service asked for. -/
theorem model_decides_little (workers : Workers) (store : Store) (events : List PipelineEvent) :
    (∀ others, List.Forall₂ workers.Alike events others →
      (run workers.step { store } events).store = (run workers.step { store } others).store) ∧
    (Along workers.step Workers.Keeps { store } events →
      Along workers.step (fun pipeline event => ∀ storyId ∈ Workers.promotes pipeline event,
        Workers.Requested pipeline storyId) { store } events) := by
  constructor
  · intro others alike
    have matched : workers.Matched (run workers.step { store } events)
        (run workers.step { store } others) := by
      refine List.rel_foldl ?_ ⟨rfl, rfl, .nil⟩ alike
      exact fun _ _ matched _ _ same => matched.step same
    exact matched.store
  · intro keeps
    refine keeps.consequence Workers.Answers ⟨by simp, trivial⟩ ?_ ?_
    · exact fun _ _ answers kept => answers.step kept
    · exact fun _ _ answers _ _ promotes => answers.promotes promotes

theorem blastsCap : "Blasts in Kyiv".length ≤ maxTextLen := by decide

/-- The post and an official bulletin, and a request for the claim of the post. -/
def askedStore : Store :=
  { crowded with
    items := [post, bulletin 2 0 none]
    heavy := [⟨7, 1, "Blasts in Kyiv", blastsCap⟩] }

def plainWorkers : Workers where
  rt := .plain
  enc := plainWire
  pg := textPostgres

/-- The model replies, and the trust worker looks at the result. -/
def replied (raw : PyStr) : List PipelineEvent :=
  [.extract 0 raw true, .take 0, .advance [], .advance [], .advance []]

/-- Any other words would have promoted the Story as well. -/
theorem model_decides_little_blasts :
    (run plainWorkers.step { store := askedStore }
      (replied (PyStr.of "Blasts in Kyiv"))).store.stories.map StoryRow.trustState =
        [.primaryBacked] ∧
    (run plainWorkers.step { store := askedStore } (replied (PyStr.of "Blasts in Kyiv"))).store =
      (run plainWorkers.step { store := askedStore } (replied (PyStr.of "All is well"))).store ∧
    Along plainWorkers.step (fun pipeline event => ∀ storyId ∈ Workers.promotes pipeline event,
      Workers.Requested pipeline storyId) { store := askedStore }
        (replied (PyStr.of "Blasts in Kyiv")) := by
  have little := model_decides_little plainWorkers askedStore (replied (PyStr.of "Blasts in Kyiv"))
  refine ⟨by decide +kernel, little.1 _ ?_, little.2 ?_⟩
  · refine .cons ⟨rfl, rfl, by decide +kernel⟩ (List.forall₂_same.mpr fun event listed => ?_)
    simp only [List.mem_cons, List.not_mem_nil, or_false] at listed
    rcases listed with rfl | rfl | rfl | rfl <;> rfl
  · exact ⟨trivial, trivial, trivial, trivial, trivial, trivial⟩

end NewsAggregator.Trust
