import Mathlib.Data.Rat.Defs
import NewsAggregator.Foundation.Program
import NewsAggregator.Foundation.Run

/-! The store of model artifacts, a bucket of two keys: the bytes of the classifier,
and what describes them. A publish puts the description first, then the bytes. -/

namespace NewsAggregator.Classify

open Foundation

/-- The JSON under `META_KEY`. -/
structure ModelMeta where
  version : String
  metrics : List (String × ℚ) := []
  nRows : ℕ := 0
  trainedAt : Int := 0

/-- The bucket; each value comes with the revision of its entry. -/
structure Bucket (Bytes : Type) where
  classifier : Option (Bytes × ℕ) := none
  classifierMeta : Option (ModelMeta × ℕ) := none
  revision : ℕ := 0

variable {Bytes : Type}

inductive KvStmt (Bytes : Type) : Type → Type where
  | getModel : KvStmt Bytes (Option (Bytes × ℕ))
  | getMeta : KvStmt Bytes (Option (ModelMeta × ℕ))
  | putModel (value : Bytes) : KvStmt Bytes Unit
  | putMeta (value : ModelMeta) : KvStmt Bytes Unit

def kvExec : Semantics (KvStmt Bytes) (Bucket Bytes)
  | _, .getModel, kv => (kv.classifier, kv)
  | _, .getMeta, kv => (kv.classifierMeta, kv)
  | _, .putModel value, kv =>
    ((), { kv with classifier := some (value, kv.revision + 1), revision := kv.revision + 1 })
  | _, .putMeta value, kv =>
    ((), { kv with classifierMeta := some (value, kv.revision + 1), revision := kv.revision + 1 })

namespace ModelStore

def getModel : Program (KvStmt Bytes) (Option Bytes) := do
  let got ← .perform .getModel
  .done (got.map Prod.fst)

def modelRevision : Program (KvStmt Bytes) (Option ℕ) := do
  let got ← .perform .getModel
  .done (got.map Prod.snd)

def getMeta : Program (KvStmt Bytes) (Option ModelMeta) := do
  let got ← .perform .getMeta
  .done (got.map Prod.fst)

def publish (modelBytes : Bytes) (info : ModelMeta) : Program (KvStmt Bytes) Unit := do
  .perform (.putMeta info)
  .perform (.putModel modelBytes)

end ModelStore

/-- A publish of a promoted candidate, which may stop after some of its puts. -/
structure Publication (Bytes : Type) where
  candidate : Bytes
  metrics : List (String × ℚ) := []
  nRows : ℕ := 0
  trainedAt : Int := 0
  cut : Option ℕ := none

/-- The description `Retrainer.cycle` publishes. -/
def Publication.describe (sha256 : Bytes → String) (publication : Publication Bytes) : ModelMeta :=
  ⟨sha256 publication.candidate, publication.metrics, publication.nRows, publication.trainedAt⟩

def publishInto (sha256 : Bytes → String) (kv : Bucket Bytes) (publication : Publication Bytes) :
    Bucket Bytes :=
  (Program.execute kvExec publication.cut
    (ModelStore.publish publication.candidate (publication.describe sha256)) kv).2

/-- The last publish of a history that made so many puts. -/
def lastReaching (count : ℕ) (history : List (Publication Bytes)) : Option (Publication Bytes) :=
  (history.filter fun publication => Program.Reached publication.cut count).getLast?

/-- What a publish leaves under the two keys, as far as it got. -/
theorem publishInto_eq (sha256 : Bytes → String) (kv : Bucket Bytes)
    (publication : Publication Bytes) :
    (publishInto sha256 kv publication).classifier.map Prod.fst =
        (if Program.Reached publication.cut 2 then some publication.candidate
          else kv.classifier.map Prod.fst) ∧
      (publishInto sha256 kv publication).classifierMeta.map Prod.fst =
        (if Program.Reached publication.cut 1 then some (publication.describe sha256)
          else kv.classifierMeta.map Prod.fst) := by
  have yields := Program.execute_yields kvExec publication.cut
    (ModelStore.publish publication.candidate (publication.describe sha256)) kv
  change Program.Yields kvExec publication.cut 0 _ kv _ (publishInto sha256 kv publication)
    at yields
  rw [ModelStore.publish, Program.perform_bind] at yields
  rcases Program.yields_call.mp yields with ⟨stop, same, _⟩ | ⟨on, later⟩
  · rw [same, if_neg (Program.not_reached stop (by decide)),
      if_neg (Program.not_reached stop (by decide))]
    exact ⟨rfl, rfl⟩
  · have first : Program.Reached publication.cut 1 := (Program.reached_zero _).succ on
    rw [if_pos first]
    rcases Program.yields_call.mp later with ⟨stop, same, _⟩ | ⟨on, ended⟩
    · rw [same, if_neg (Program.not_reached stop (by decide))]
      exact ⟨rfl, rfl⟩
    · rw [if_pos (first.succ on), (Program.yields_done.mp ended).1]
      exact ⟨rfl, rfl⟩

theorem lastReaching_isSome {count : ℕ} {history : List (Publication Bytes)} :
    (lastReaching count history).isSome ↔
      ∃ publication ∈ history, Program.Reached publication.cut count := by
  rw [lastReaching, List.getLast?_isSome, ne_eq, List.filter_eq_nil_iff]
  simp

theorem lastReaching_concat (count : ℕ) (history : List (Publication Bytes))
    (publication : Publication Bytes) : lastReaching count (history ++ [publication]) =
      if Program.Reached publication.cut count then some publication
      else lastReaching count history := by
  rw [lastReaching, List.filter_append]
  by_cases reached : Program.Reached publication.cut count
  · simp [reached]
  · simp [reached, lastReaching]

/-- The bucket holds the last bytes and the last description that were put. -/
theorem bucket_eq (sha256 : Bytes → String) (history : List (Publication Bytes)) :
    (run (publishInto sha256) {} history).classifier.map Prod.fst =
        (lastReaching 2 history).map Publication.candidate ∧
      (run (publishInto sha256) {} history).classifierMeta.map Prod.fst =
        (lastReaching 1 history).map (Publication.describe sha256) := by
  induction history using List.reverseRecOn with
  | nil => exact ⟨rfl, rfl⟩
  | append_singleton before publication ih =>
    rw [run_concat, lastReaching_concat, lastReaching_concat,
      (publishInto_eq sha256 _ publication).1, (publishInto_eq sha256 _ publication).2,
      ih.1, ih.2, apply_ite (Option.map Publication.candidate),
      apply_ite (Option.map (Publication.describe sha256))]
    exact ⟨rfl, rfl⟩

end NewsAggregator.Classify
