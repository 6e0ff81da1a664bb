import NewsAggregator.Cluster.Handle
import NewsAggregator.Ingest.Publishable

/-! The claim queue: what the cluster service asks, what the extractor answers, and the
caps on the way. -/

namespace NewsAggregator.Cluster

open Bus Foundation Ingest

def enrichedMaxMsgBytes : ℕ := maxMsgBytes + 16 * 1024

/-- The publisher of the cluster service. -/
def heavyPublisher : ScopedPublisher where
  allowedPrefix := "llm."
  maxMsgBytes := enrichedMaxMsgBytes

/-- The publisher of the claim extractor. -/
def claimPublisher : ScopedPublisher where
  allowedPrefix := "claim."
  maxMsgBytes := maxMsgBytes

/-- `ClaimExtractor.handle` up to its publish, on what the model replied. -/
def claimOf (rt : Runtime) (req : ClaimRequest) (raw : PyStr) : Except PyError ClaimResult :=
  let claim : PyStr := (stripStr rt raw).take 2048
  if claim.Encodes then .ok {
      storyId := req.storyId
      itemId := req.itemId
      claim := claim.text
      claimCap := claim.length_text_le.trans (List.length_take_le 2048 _) }
  else .error .validationError

section Messages

variable (enc : WireEncoding)

/-- A request on `llm.heavy`. -/
def requestMessage (req : ClaimRequest) : Message ClaimRequest where
  subject := "llm.heavy"
  size := (req.json enc.toEncoding).utf8ByteSize
  payload := some req

/-- A result on `claim.extracted`. -/
def resultMessage (result : ClaimResult) : Message ClaimResult where
  subject := "claim.extracted"
  size := (result.json enc.toEncoding).utf8ByteSize
  payload := some result

theorem request_fits (req : ClaimRequest) : (requestMessage enc req).size ≤ maxMsgBytes := by
  have story := enc.uuid_size req.storyId
  have item := enc.uuid_size req.itemId
  have text := Json.quotedSize_le req.text
  have cap := req.textCap
  unfold maxTextLen at cap
  rw [requestMessage, maxMsgBytes]
  dsimp only
  rw [ClaimRequest.size_json]
  omega

theorem result_fits (result : ClaimResult) : (resultMessage enc result).size ≤ maxMsgBytes := by
  have story := enc.uuid_size result.storyId
  have item := enc.uuid_size result.itemId
  have claim := Json.quotedSize_le result.claim
  have cap := result.claimCap
  rw [resultMessage, maxMsgBytes]
  dsimp only
  rw [ClaimResult.size_json]
  omega

end Messages

/-- A message goes through a publisher and a stream of at least the consumer's cap, and
the consumer hands it over: it is acked or redelivered, never dropped. -/
def Passes {M : Type} (pub : ScopedPublisher) (msg : Message M) : Prop :=
  (∀ streamCap, maxMsgBytes ≤ streamCap →
    pub.publish msg.subject msg.size (msg.size ≤ streamCap) = true) ∧
  ∀ (σ : Type) (handler : M → σ → Option Unit × σ) (state : σ),
    (consumeValidated maxMsgBytes handler msg state).1 ≠ .term

theorem passes_of_fits {M : Type} {pub : ScopedPublisher} {msg : Message M} {payload : M}
    (allowed : pub.allowedPrefix.toList <+: msg.subject.toList)
    (roomy : maxMsgBytes ≤ pub.maxMsgBytes) (valid : msg.payload = some payload)
    (fits : msg.size ≤ maxMsgBytes) : Passes pub msg := by
  constructor
  · intro streamCap wide
    simp [ScopedPublisher.publish, allowed, fits.trans roomy, fits.trans wide]
  · intro σ handler state
    have seen : accepted maxMsgBytes msg = some payload := by
      rw [accepted, if_neg (Nat.not_lt.mpr fits), valid]
    rw [consumeValidated_accepted handler state seen]
    split <;> simp

/-- Whatever its text, a request passes the cluster service's publisher and the cap of the
extractor, and whatever the model replied, a result passes the extractor's publisher and
the cap of the trust service. -/
theorem claim_queue_passes (enc : WireEncoding) (rt : Runtime) :
    (∀ req : ClaimRequest, (req.json enc.toEncoding).utf8ByteSize ≤ maxMsgBytes ∧
      Passes heavyPublisher (requestMessage enc req)) ∧
    ∀ req raw result, claimOf rt req raw = .ok result →
      (result.json enc.toEncoding).utf8ByteSize ≤ maxMsgBytes ∧
        Passes claimPublisher (resultMessage enc result) := by
  constructor
  · intro req
    have fits := request_fits enc req
    have allowed : "llm.".toList <+: "llm.heavy".toList := by decide
    have roomy : maxMsgBytes ≤ heavyPublisher.maxMsgBytes := Nat.le_add_right _ _
    exact ⟨fits, passes_of_fits allowed roomy rfl fits⟩
  · intro req raw result _
    have fits := result_fits enc result
    have allowed : "claim.".toList <+: "claim.extracted".toList := by decide
    exact ⟨fits, passes_of_fits allowed le_rfl rfl fits⟩

theorem bridge_short : "They say the bridge is closed!".length ≤ maxTextLen := by decide

def bridgeRequest : ClaimRequest := ⟨1, 2, "They say the bridge is closed!", bridge_short⟩

theorem bridge_passes :
    ((bridgeRequest.json plainWire.toEncoding).utf8ByteSize ≤ maxMsgBytes ∧
      Passes heavyPublisher (requestMessage plainWire bridgeRequest)) ∧
    ∃ result, claimOf .plain bridgeRequest (PyStr.of " The bridge is closed. ") = .ok result ∧
      Passes claimPublisher (resultMessage plainWire result) := by
  have passes := claim_queue_passes plainWire .plain
  have encodes : PyStr.Encodes
      ((stripStr .plain (PyStr.of " The bridge is closed. ")).take 2048) := by decide +kernel
  have answer : ∃ result, claimOf .plain bridgeRequest (PyStr.of " The bridge is closed. ") =
      .ok result := by
    rw [claimOf, if_pos encodes]
    exact ⟨_, rfl⟩
  obtain ⟨result, extracted⟩ := answer
  exact ⟨passes.1 bridgeRequest, result, extracted, (passes.2 _ _ result extracted).2⟩

end NewsAggregator.Cluster
