import Mathlib.Data.Nat.Notation

/-! The validating consumer: what happens to one message of a batch. -/

namespace NewsAggregator.Bus

/-- A message of a stream, with what `model_validate_json` makes of its data. -/
structure Message (M : Type) where
  subject : String
  size : ℕ
  payload : Option M

inductive Reply
  | ack
  | nak
  | term
  deriving DecidableEq

/-- `ScopedPublisher`. -/
structure ScopedPublisher where
  allowedPrefix : String
  maxMsgBytes : ℕ

/-- Whether `publish` of a message returns; `sent` is what the broker makes of it. -/
def ScopedPublisher.publish (pub : ScopedPublisher) (subject : String) (size : ℕ) (sent : Bool) :
    Bool :=
  pub.allowedPrefix.toList <+: subject.toList ∧ size ≤ pub.maxMsgBytes ∧ sent

variable {M σ : Type}

/-- The payload the handler gets to see. -/
def accepted (maxMsgBytes : ℕ) (msg : Message M) : Option M :=
  if maxMsgBytes < msg.size then none else msg.payload

/-- One turn of `consume_validated`. The handler answers `none` when it raises;
a malformed or oversized message is dropped before it. -/
def consumeValidated (maxMsgBytes : ℕ) (handler : M → σ → Option Unit × σ) (msg : Message M)
    (state : σ) : Reply × σ :=
  match accepted maxMsgBytes msg with
  | none => (.term, state)
  | some parsed =>
    match handler parsed state with
    | (some (), after) => (.ack, after)
    | (none, after) => (.nak, after)

variable {maxMsgBytes : ℕ} {msg : Message M} (handler : M → σ → Option Unit × σ) (state : σ)

theorem consumeValidated_dropped (dropped : accepted maxMsgBytes msg = none) :
    consumeValidated maxMsgBytes handler msg state = (.term, state) := by
  rw [consumeValidated, dropped]

/-- A message the handler sees is acked exactly when the handler returns. -/
theorem consumeValidated_accepted {parsed : M} (seen : accepted maxMsgBytes msg = some parsed) :
    consumeValidated maxMsgBytes handler msg state =
      (if (handler parsed state).1.isSome then .ack else .nak, (handler parsed state).2) := by
  rw [consumeValidated, seen]
  dsimp only
  obtain ⟨_ | ⟨⟩, after⟩ := handler parsed state <;> rfl

end NewsAggregator.Bus
