import Mathlib.Data.Finset.Insert
import NewsAggregator.Python

/-! The dedup stores: a bounded one per process and the shared one in the bucket
of a NATS key-value store. -/

namespace NewsAggregator.Dedup

/-- The protocol `Deduper`: a key is recorded exactly when it was not known. A
store tells keys apart by what it keeps of them. -/
structure Deduper (σ : Type) where
  empty : σ
  kept : String → String
  knows : σ → String → Bool
  record : String → σ → σ
  knows_empty : ∀ key, knows empty key = false
  knows_congr : ∀ state key other, kept key = kept other → knows state key = knows state other
  knows_record : ∀ state key, knows state key = false → knows (record key state) key
  of_knows_record : ∀ state key other, knows (record key state) other →
    kept other = kept key ∨ knows state other

/-- `seen`. -/
def Deduper.seen {σ : Type} (dedup : Deduper σ) (key : String) (state : σ) : Bool × σ :=
  if dedup.knows state key then (true, state) else (false, dedup.record key state)

/-- `InMemoryDeduper`: the oldest keys are evicted beyond the cap. -/
def inMemory (cap : ℕ) (positive : 0 < cap) : Deduper (List String) where
  empty := []
  kept := id
  knows seen key := key ∈ seen
  record key seen := (seen ++ [key]).drop ((seen ++ [key]).length - cap)
  knows_empty := by simp
  knows_congr seen key other same := by rw [show key = other from same]
  knows_record seen key _ := by
    rw [List.drop_append_of_le_length (by simp; omega)]
    simp
  of_knows_record seen key other known := by
    have listed := List.mem_of_mem_drop (of_decide_eq_true known)
    rcases List.mem_append.mp listed with old | new
    · exact .inr (decide_eq_true old)
    · exact .inl (List.mem_singleton.mp new)

/-- `_safe_key`. -/
def safeKey (py : Python) (key : String) : String := py.sha256 key

/-- What `create` of the bucket answers. -/
inductive Created
  | revision
  | wrongLastSequence
  | fault

/-- `NatsKvDeduper.seen`: create if absent; a fault of the store fails open. -/
def natsKvSeen (py : Python) (fault : Bool) (key : String) (bucket : Finset String) :
    Bool × Finset String :=
  let answer : Created :=
    if fault then .fault
    else if safeKey py key ∈ bucket then .wrongLastSequence
    else .revision
  match answer with
  | .revision => (false, insert (safeKey py key) bucket)
  | .wrongLastSequence => (true, bucket)
  | .fault => (false, bucket)

/-- The shared store. -/
def natsKv (py : Python) : Deduper (Finset String) where
  empty := ∅
  kept := safeKey py
  knows bucket key := safeKey py key ∈ bucket
  record key bucket := insert (safeKey py key) bucket
  knows_empty := by simp
  knows_congr bucket key other same := by rw [same]
  knows_record bucket key _ := by simp
  of_knows_record bucket key other known := by
    rcases Finset.mem_insert.mp (of_decide_eq_true known) with same | old
    · exact .inl same
    · exact .inr (decide_eq_true old)

/-- The store forgets no key. -/
def Deduper.Lasting {σ : Type} (dedup : Deduper σ) : Prop :=
  ∀ state key other, dedup.knows state other → dedup.knows (dedup.record key state) other

theorem natsKv_lasting (py : Python) : (natsKv py).Lasting := fun _ _ _ known =>
  decide_eq_true (Finset.mem_insert_of_mem (of_decide_eq_true known))

theorem seen_natsKv (py : Python) (key : String) (bucket : Finset String) :
    (natsKv py).seen key bucket = natsKvSeen py false key bucket := by
  unfold Deduper.seen natsKvSeen natsKv
  by_cases known : safeKey py key ∈ bucket <;> simp [known]

end NewsAggregator.Dedup
