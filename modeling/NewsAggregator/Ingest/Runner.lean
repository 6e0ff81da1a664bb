import NewsAggregator.Foundation.Fifo
import NewsAggregator.Ingest.Total

/-! The shared poll loop of the pull-based ingesters: a payload is walked record by
record, and a record that raises ends the walk until the next poll. -/

namespace NewsAggregator.Ingest

open Foundation Fifo

/-- `SEEN_CAP`. -/
@[irreducible] def runnerSeenCap : ℕ := 10000

variable {Raw Key Item ε : Type} [DecidableEq Key]

/-- A `PollSource`, and what the publisher makes of the item of a record. -/
structure PollSource (Raw Key Item ε : Type) where
  dedupKey : Raw → Except ε Key
  normalize : Raw → Except ε (Option Item)
  publish : Raw → Item → Except ε Unit

/-- The bounded memory of a runner, and what it published so far. -/
structure Poller (Key Item : Type) where
  seen : List Key
  published : List (Key × Item) := []

namespace PollSource

variable (src : PollSource Raw Key Item ε)

/-- One turn of the loop; the exception ends it. -/
def turn (poller : Poller Key Item) (raw : Raw) : Poller Key Item × Except ε Unit :=
  match src.dedupKey raw with
  | .error error => (poller, .error error)
  | .ok key =>
    if key ∈ poller.seen then (poller, .ok ())
    else
      match src.normalize raw with
      | .error error => (poller, .error error)
      | .ok none => ({ poller with seen := remember runnerSeenCap poller.seen key }, .ok ())
      | .ok (some item) =>
        match src.publish raw item with
        | .error error => (poller, .error error)
        | .ok () =>
          ({ seen := remember runnerSeenCap poller.seen key
             published := poller.published ++ [(key, item)] }, .ok ())

/-- `poll_once`, on the records of the payload. -/
def pollOnce (poller : Poller Key Item) : List Raw → Poller Key Item × Except ε Unit
  | [] => (poller, .ok ())
  | raw :: rest =>
    match src.turn poller raw with
    | (next, .ok ()) => pollOnce next rest
    | (next, .error error) => (next, .error error)

/-- So many polls of `run`, which logs what a poll raises. -/
def polls (payload : List Raw) (poller : Poller Key Item) : ℕ → Poller Key Item
  | 0 => poller
  | count + 1 => (src.pollOnce (polls payload poller count) payload).1

/-- The record gives an item, and it is published. -/
def Passes (raw : Raw) (item : Item) : Prop :=
  src.normalize raw = .ok (some item) ∧ src.publish raw item = .ok ()

/-- The record raises, in `normalize` or when it is published. -/
def Fails (raw : Raw) : Prop :=
  (∃ error, src.normalize raw = .error error) ∨
    ∃ item error, src.normalize raw = .ok (some item) ∧ src.publish raw item = .error error

/-- A payload within the capacity, with a key of its own for every record. -/
structure Payload where
  records : List Raw
  key : Raw → Key
  keyed : ∀ raw ∈ records, src.dedupKey raw = .ok (key raw)
  few : records.length ≤ runnerSeenCap
  distinct : (records.map key).Nodup

variable {src} (payload : src.Payload)

/-- The published items of a key. -/
def itemsOf (poller : Poller Key Item) (key : Key) : List Item :=
  (poller.published.filter fun entry => entry.1 = key).map Prod.snd

/-- Every record that was new and passes is published once, and its key is held. -/
def Payload.Delivers (seen : List Key) (after : Poller Key Item) : Prop :=
  ∀ raw ∈ payload.records, payload.key raw ∉ seen → ∀ item, src.Passes raw item →
    itemsOf after (payload.key raw) = [item] ∧ payload.key raw ∈ after.seen

/-- No record that fails, and that is not held any more when the records before it were
visited, stands before a new one that passes. -/
def Payload.Unblocked (seen : List Key) : Prop :=
  ∀ before bad after, payload.records = before ++ bad :: after → src.Fails bad →
    payload.key bad ∉ visits runnerSeenCap seen (before.map payload.key) →
      ∀ raw ∈ after, payload.key raw ∉ seen → ∀ item, ¬ src.Passes raw item

variable {payload} {poller next : Poller Key Item} {raw : Raw} {key : Key} {item : Item}

/-- Everything a turn can do to a record with a key. -/
theorem turn_cases (poller : Poller Key Item) (keyed : src.dedupKey raw = .ok key) :
    (key ∈ poller.seen ∧ src.turn poller raw = (poller, .ok ())) ∨
    (key ∉ poller.seen ∧ src.Fails raw ∧ ∃ error, src.turn poller raw = (poller, .error error)) ∨
    (key ∉ poller.seen ∧ src.normalize raw = .ok none ∧ src.turn poller raw =
      ({ poller with seen := remember runnerSeenCap poller.seen key }, .ok ())) ∨
    (key ∉ poller.seen ∧ ∃ item, src.Passes raw item ∧ src.turn poller raw =
      ({ seen := remember runnerSeenCap poller.seen key
         published := poller.published ++ [(key, item)] }, .ok ())) := by
  simp only [turn, keyed]
  by_cases held : key ∈ poller.seen
  · simp [held]
  · cases normal : src.normalize raw with
    | error error =>
      exact .inr (.inl ⟨held, .inl ⟨error, normal⟩, error, by simp [held]⟩)
    | ok found =>
      cases found with
      | none => exact .inr (.inr (.inl ⟨held, rfl, by simp [held]⟩))
      | some item =>
        cases sent : src.publish raw item with
        | error error =>
          exact .inr (.inl ⟨held, .inr ⟨item, error, normal, sent⟩, error, by simp [held, sent]⟩)
        | ok done =>
          exact .inr (.inr (.inr ⟨held, item, ⟨normal, sent⟩, by simp [held, sent]⟩))

omit [DecidableEq Key] in
theorem Passes.not_fails (passes : src.Passes raw item) : ¬ src.Fails raw := by
  rintro (⟨error, raises⟩ | ⟨other, error, normal, raises⟩)
  · cases raises.symm.trans passes.1
  · cases normal.symm.trans passes.1
    cases raises.symm.trans passes.2

omit [DecidableEq Key] in
theorem Passes.unique {other : Item} (passes : src.Passes raw item) (again : src.Passes raw other) :
    item = other := by
  cases passes.1.symm.trans again.1
  rfl

/-- A turn that does not raise visits the key. -/
theorem seen_turn (keyed : src.dedupKey raw = .ok key)
    (turned : src.turn poller raw = (next, .ok ())) :
    next.seen = visit runnerSeenCap poller.seen key := by
  rcases turn_cases poller keyed with ⟨held, same⟩ | ⟨_, _, error, same⟩ |
    ⟨fresh, _, same⟩ | ⟨fresh, item, _, same⟩
  · cases same.symm.trans turned
    simp [visit, held]
  · cases same.symm.trans turned
  · obtain ⟨rfl, -⟩ := Prod.mk.inj (turned.symm.trans same)
    simp [visit, fresh]
  · obtain ⟨rfl, -⟩ := Prod.mk.inj (turned.symm.trans same)
    simp [visit, fresh]

theorem pollOnce_append (poller : Poller Key Item) (first second : List Raw) :
    src.pollOnce poller (first ++ second) =
      match src.pollOnce poller first with
      | (next, .ok ()) => src.pollOnce next second
      | (next, .error error) => (next, .error error) := by
  induction first generalizing poller with
  | nil => rfl
  | cons raw rest ih =>
    simp only [List.cons_append, pollOnce]
    rcases src.turn poller raw with ⟨next, error | ⟨⟩⟩
    · rfl
    · exact ih next

/-- Where it does not raise, a walk visits the keys of its records. -/
theorem seen_pollOnce {key : Raw → Key} {records : List Raw}
    (keyed : ∀ raw ∈ records, src.dedupKey raw = .ok (key raw))
    (walked : src.pollOnce poller records = (next, .ok ())) :
    next.seen = visits runnerSeenCap poller.seen (records.map key) := by
  induction records generalizing poller with
  | nil =>
    cases walked
    rfl
  | cons raw rest ih =>
    rw [pollOnce] at walked
    rcases turned : src.turn poller raw with ⟨later, error | ⟨⟩⟩
    · rw [turned] at walked
      cases walked
    · rw [turned] at walked
      have here := seen_turn (keyed raw List.mem_cons_self) turned
      have rest_keyed := fun other member => keyed other (List.mem_cons_of_mem raw member)
      have following := ih rest_keyed walked
      rw [following, here, List.map_cons, visits_cons]

/-- A walk that raises does so at a record that fails and is not held when it is reached. -/
theorem raises_at {key : Raw → Key} {records : List Raw} {error : ε}
    (keyed : ∀ raw ∈ records, src.dedupKey raw = .ok (key raw))
    (walked : src.pollOnce poller records = (next, .error error)) :
    ∃ before bad after, records = before ++ bad :: after ∧ src.Fails bad ∧
      src.pollOnce poller before = (next, .ok ()) ∧ key bad ∉ next.seen := by
  induction records generalizing poller with
  | nil => cases walked
  | cons raw rest ih =>
    have rest_keyed := fun other (member : other ∈ rest) =>
      keyed other (List.mem_cons_of_mem raw member)
    rw [pollOnce] at walked
    rcases turned : src.turn poller raw with ⟨later, raised | ⟨⟩⟩
    · rw [turned] at walked
      cases walked
      rcases turn_cases poller (keyed raw List.mem_cons_self) with ⟨_, same⟩ |
        ⟨fresh, fails, _, same⟩ | ⟨_, _, same⟩ | ⟨_, _, _, same⟩
      · cases same.symm.trans turned
      · cases same.symm.trans turned
        exact ⟨[], raw, rest, rfl, fails, rfl, fresh⟩
      · exact nomatch (Prod.mk.inj (turned.symm.trans same)).2
      · exact nomatch (Prod.mk.inj (turned.symm.trans same)).2
    · rw [turned] at walked
      obtain ⟨before, bad, after, split, fails, reached, fresh⟩ := ih rest_keyed walked
      refine ⟨raw :: before, bad, after, by rw [split, List.cons_append], fails, ?_, fresh⟩
      rw [pollOnce, turned]
      exact reached

/-- A turn leaves the items of other keys alone, and remembers its key at most. -/
theorem turn_other (poller : Poller Key Item) {other : Key} (keyed : src.dedupKey raw = .ok key)
    (different : other ≠ key) :
    itemsOf (src.turn poller raw).1 other = itemsOf poller other ∧
      ((src.turn poller raw).1.seen = poller.seen ∨ key ∉ poller.seen ∧
        (src.turn poller raw).1.seen = remember runnerSeenCap poller.seen key) := by
  rcases turn_cases poller keyed with ⟨_, same⟩ | ⟨_, _, _, same⟩ | ⟨fresh, _, same⟩ |
    ⟨fresh, item, _, same⟩
  · simp [same]
  · simp [same]
  · simp [same, fresh, itemsOf]
  · simp [same, fresh, itemsOf, different.symm]

/-- What every turn over the records preserves, the walk preserves. -/
theorem pollOnce_invariant (invariant : Poller Key Item → Prop) {records : List Raw}
    (start : invariant poller) (preserved : ∀ poller, invariant poller → ∀ raw ∈ records,
      invariant (src.turn poller raw).1) : invariant (src.pollOnce poller records).1 := by
  induction records generalizing poller with
  | nil => exact start
  | cons raw rest ih =>
    have next := preserved poller start raw List.mem_cons_self
    have later := fun poller holds other (member : other ∈ rest) =>
      preserved poller holds other (List.mem_cons_of_mem raw member)
    rw [pollOnce]
    rcases turned : src.turn poller raw with ⟨after, error | ⟨⟩⟩
    · rwa [turned] at next
    · rw [turned] at next
      exact ih next later

/-- The record is not held and nothing of it was published. -/
def Pending (poller : Poller Key Item) (key : Key) : Prop :=
  key ∉ poller.seen ∧ itemsOf poller key = []

/-- The item was published once, and the payload does not push its key out. -/
def Settled (payload : src.Payload) (poller : Poller Key Item) (raw : Raw) (item : Item) : Prop :=
  itemsOf poller (payload.key raw) = [item] ∧
    Recent (payload.records.map payload.key) poller.seen (payload.key raw)

theorem absent_turn {other : Key} (absent : other ∉ poller.seen)
    (keyed : src.dedupKey raw = .ok key) (different : other ≠ key) :
    other ∉ (src.turn poller raw).1.seen := by
  rcases (turn_other poller keyed different).2 with same | ⟨_, grown⟩
  · rwa [same]
  · rw [grown]
    exact not_mem_remember absent different

theorem absent_pollOnce {other : Key} {records : List Raw} {key : Raw → Key}
    (absent : other ∉ poller.seen) (keyed : ∀ raw ∈ records, src.dedupKey raw = .ok (key raw))
    (different : ∀ raw ∈ records, other ≠ key raw) :
    other ∉ (src.pollOnce poller records).1.seen :=
  pollOnce_invariant (fun poller => other ∉ poller.seen) absent
    fun _ absent raw member => absent_turn absent (keyed raw member) (different raw member)

theorem Pending.pollOnce {other : Key} {records : List Raw} {key : Raw → Key}
    (fresh : Pending poller other) (keyed : ∀ raw ∈ records, src.dedupKey raw = .ok (key raw))
    (different : ∀ raw ∈ records, other ≠ key raw) :
    Pending (src.pollOnce poller records).1 other := by
  apply pollOnce_invariant (fun poller => Pending poller other) fresh
  intro poller fresh raw member
  refine ⟨absent_turn fresh.1 (keyed raw member) (different raw member), ?_⟩
  exact (turn_other poller (keyed raw member) (different raw member)).1.trans fresh.2

theorem Settled.turn {other : Raw} (settled : Settled payload poller raw item)
    (member : other ∈ payload.records) : Settled payload (src.turn poller other).1 raw item := by
  have keyed := payload.keyed other member
  by_cases same : payload.key raw = payload.key other
  · have held : payload.key other ∈ poller.seen := same ▸ settled.2.mem
    have unchanged : src.turn poller other = (poller, .ok ()) := by
      simp [PollSource.turn, keyed, held]
    rw [unchanged]
    exact settled
  · obtain ⟨items, seen⟩ := turn_other poller keyed same
    refine ⟨items.trans settled.1, ?_⟩
    rcases seen with unchanged | ⟨fresh, grown⟩
    · rw [unchanged]
      exact settled.2
    · rw [grown]
      apply settled.2.remember _ fresh (List.mem_map_of_mem member)
      rw [List.length_map]
      exact payload.few

theorem Settled.pollOnce {records : List Raw} (settled : Settled payload poller raw item)
    (within : records ⊆ payload.records) :
    Settled payload (src.pollOnce poller records).1 raw item :=
  pollOnce_invariant (fun poller => Settled payload poller raw item) settled
    fun _ settled _ member => settled.turn (within member)

/-- The record itself, when it is reached. -/
theorem Pending.settled (fresh : Pending poller (payload.key raw)) (member : raw ∈ payload.records)
    (passes : src.Passes raw item) :
    ∃ next, src.turn poller raw = (next, .ok ()) ∧ Settled payload next raw item := by
  rcases turn_cases poller (payload.keyed raw member) with ⟨held, _⟩ | ⟨_, fails, _⟩ |
    ⟨_, none, _⟩ | ⟨_, other, again, same⟩
  · exact absurd held fresh.1
  · exact absurd fails passes.not_fails
  · cases none.symm.trans passes.1
  · obtain rfl := passes.unique again
    refine ⟨_, same, ?_, ?_⟩
    · have before : (poller.published.filter fun entry => entry.1 = payload.key raw) = [] :=
        List.map_eq_nil_iff.mp fresh.2
      simp [itemsOf, List.filter_append, before]
    · apply recent_remember _ fresh.1 (List.mem_map_of_mem member)
      unfold runnerSeenCap
      omega

omit [DecidableEq Key] in
theorem Payload.different {before after : List Raw}
    (split : payload.records = before ++ raw :: after) :
    (∀ other ∈ before, payload.key raw ≠ payload.key other) ∧
      ∀ other ∈ after, payload.key other ≠ payload.key raw := by
  have distinct := payload.distinct
  rw [split, List.map_append, List.map_cons, List.nodup_append, List.nodup_cons] at distinct
  obtain ⟨_, ⟨apart, _⟩, cross⟩ := distinct
  constructor
  · intro other member same
    exact cross _ (List.mem_map_of_mem member) _ List.mem_cons_self same.symm
  · intro other member same
    exact apart (same ▸ List.mem_map_of_mem member)

/-- A record before which the walk does not stop is settled by the poll. -/
theorem settled_of_reached {before after : List Raw}
    (split : payload.records = before ++ raw :: after)
    (walked : src.pollOnce poller before = (next, .ok ())) (fresh : Pending next (payload.key raw))
    (passes : src.Passes raw item) :
    Settled payload (src.pollOnce poller payload.records).1 raw item := by
  have member : raw ∈ payload.records := split ▸ List.mem_append_right _ List.mem_cons_self
  obtain ⟨later, turned, settled⟩ := fresh.settled member passes
  have rest : src.pollOnce poller payload.records = src.pollOnce later after := by
    rw [split, pollOnce_append, walked]
    simp only [pollOnce, turned]
  rw [rest]
  apply settled.pollOnce
  rw [split]
  exact fun other present => List.mem_append_right _ (List.mem_cons_of_mem raw present)

theorem Fails.turn (fails : src.Fails raw) (keyed : src.dedupKey raw = .ok key)
    (absent : key ∉ poller.seen) : ∃ error, src.turn poller raw = (poller, .error error) := by
  rcases turn_cases poller keyed with ⟨held, _⟩ | ⟨_, _, raises⟩ | ⟨_, none, _⟩ |
    ⟨_, item, passes, _⟩
  · exact absurd held absent
  · exact raises
  · rcases fails with ⟨error, raises⟩ | ⟨item, error, normal, _⟩
    · cases none.symm.trans raises
    · cases none.symm.trans normal
  · exact absurd fails passes.not_fails

/-- The poll stops with what it holds when it reaches a failing record. -/
theorem Fails.pollOnce {before after : List Raw} {bad : Raw} (fails : src.Fails bad)
    (split : payload.records = before ++ bad :: after)
    (walked : src.pollOnce poller before = (next, .ok ())) (absent : payload.key bad ∉ next.seen) :
    (src.pollOnce poller payload.records).1 = next := by
  have keyed : src.dedupKey bad = .ok (payload.key bad) :=
    payload.keyed bad (split ▸ List.mem_append_right _ List.mem_cons_self)
  obtain ⟨error, raises⟩ := fails.turn keyed absent
  rw [split, pollOnce_append, walked]
  simp only [PollSource.pollOnce, raises]

/-- A failing record that is not held stops every poll at it or before it. -/
theorem stuck {before after : List Raw} {bad : Raw} {key : Key}
    (split : payload.records = before ++ bad :: after) (fails : src.Fails bad)
    (missing : payload.key bad ∉ poller.seen) (fresh : Pending poller key)
    (different : ∀ other ∈ before, key ≠ payload.key other) :
    payload.key bad ∉ (src.pollOnce poller payload.records).1.seen ∧
      Pending (src.pollOnce poller payload.records).1 key := by
  have keyed : ∀ other ∈ before, src.dedupKey other = .ok (payload.key other) :=
    fun other member => payload.keyed other (split ▸ List.mem_append_left _ member)
  have absent := absent_pollOnce missing keyed (Payload.different split).1
  have still := fresh.pollOnce keyed different
  rcases walked : src.pollOnce poller before with ⟨next, error | ⟨⟩⟩
  · rw [split, pollOnce_append, walked]
    rw [walked] at absent still
    exact ⟨absent, still⟩
  · rw [walked] at absent still
    rw [fails.pollOnce split walked absent]
    exact ⟨absent, still⟩

/-- Where a failing record stands in the way, the first poll stops at one. -/
theorem stops_before {seen : List Key} {before after : List Raw} {bad : Raw}
    (split : payload.records = before ++ bad :: after)
    (missing : payload.key bad ∉ visits runnerSeenCap seen (before.map payload.key))
    (fails : src.Fails bad) :
    ∃ first stop rest, payload.records = first ++ stop :: rest ∧ after ⊆ rest ∧ src.Fails stop ∧
      ∃ next, src.pollOnce { seen } first = (next, .ok ()) ∧ payload.key stop ∉ next.seen := by
  have keyed : ∀ other ∈ before, src.dedupKey other = .ok (payload.key other) :=
    fun other member => payload.keyed other (split ▸ List.mem_append_left _ member)
  rcases walked : src.pollOnce { seen } before with ⟨next, error | ⟨⟩⟩
  · obtain ⟨first, stop, rest, inner, stopFails, reached, fresh⟩ := raises_at keyed walked
    refine ⟨first, stop, rest ++ bad :: after, ?_, ?_, stopFails, next, reached, fresh⟩
    · rw [split, inner, List.append_assoc, List.cons_append]
    · exact fun other member => List.mem_append_right _ (List.mem_cons_of_mem bad member)
  · refine ⟨before, bad, after, split, List.Subset.refl _, fails, next, walked, ?_⟩
    rwa [seen_pollOnce keyed walked]

/-- Behind a failing record a new one stays pending, however often the payload is polled. -/
theorem pending_polls {seen : List Key} {before after : List Raw} {bad : Raw}
    (split : payload.records = before ++ bad :: after)
    (missing : payload.key bad ∉ visits runnerSeenCap seen (before.map payload.key))
    (fails : src.Fails bad) (member : raw ∈ after) (new : payload.key raw ∉ seen) (count : ℕ) :
    Pending (src.polls payload.records { seen } (count + 1)) (payload.key raw) := by
  obtain ⟨first, stop, rest, divided, later, stopFails, next, walked, absent⟩ :=
    stops_before split missing fails
  have apart : ∀ other ∈ first, payload.key raw ≠ payload.key other := by
    obtain ⟨inner, tail, inside⟩ := List.append_of_mem (later member)
    have wider : payload.records = (first ++ stop :: inner) ++ raw :: tail := by
      rw [divided, inside, List.append_assoc, List.cons_append]
    exact fun other before => (Payload.different wider).1 other (List.mem_append_left _ before)
  have keyed : ∀ other ∈ first, src.dedupKey other = .ok (payload.key other) :=
    fun other before => payload.keyed other (divided ▸ List.mem_append_left _ before)
  have reached : Pending next (payload.key raw) := by
    have start : Pending ({ seen } : Poller Key Item) (payload.key raw) := ⟨new, rfl⟩
    have walk := start.pollOnce keyed apart
    rwa [walked] at walk
  -- the first poll stops there, and no later one gets further
  have always : payload.key stop ∉ (src.polls payload.records { seen } (count + 1)).seen ∧
      Pending (src.polls payload.records { seen } (count + 1)) (payload.key raw) := by
    induction count with
    | zero =>
      rw [polls, polls, stopFails.pollOnce divided walked absent]
      exact ⟨absent, reached⟩
    | succ count ih => exact stuck divided stopFails ih.1 ih.2 apart
  exact always.2

/-- Where nothing stands before it, a new record that passes is settled by the first poll. -/
theorem settled_polls {seen : List Key} (unblocked : payload.Unblocked seen)
    (member : raw ∈ payload.records) (new : payload.key raw ∉ seen) (passes : src.Passes raw item)
    (count : ℕ) :
    Settled payload (src.polls payload.records { seen } (count + 1)) raw item := by
  obtain ⟨before, after, split⟩ := List.append_of_mem member
  have keyed : ∀ other ∈ before, src.dedupKey other = .ok (payload.key other) :=
    fun other present => payload.keyed other (split ▸ List.mem_append_left _ present)
  have start : Pending ({ seen } : Poller Key Item) (payload.key raw) := ⟨new, rfl⟩
  induction count with
  | zero =>
    have fresh := start.pollOnce keyed (Payload.different split).1
    rcases walked : src.pollOnce ({ seen } : Poller Key Item) before with ⟨next, error | ⟨⟩⟩
    · obtain ⟨first, stop, rest, divided, fails, reached, absent⟩ := raises_at keyed walked
      have firstKeyed := fun other (present : other ∈ first) =>
        keyed other (divided ▸ List.mem_append_left _ present)
      rw [seen_pollOnce firstKeyed reached] at absent
      refine absurd passes (unblocked first stop (rest ++ raw :: after) ?_ fails absent raw ?_
        new item)
      · rw [split, divided, List.append_assoc, List.cons_append]
      · exact List.mem_append_right _ List.mem_cons_self
    · rw [walked] at fresh
      exact settled_of_reached split walked fresh passes
  | succ count ih => exact ih.pollOnce (List.Subset.refl _)

end PollSource

open PollSource

/-- However often the payload is polled, every new record that passes is published exactly
once, if and only if no failing record stands before one. -/
theorem polls_deliver_iff {src : PollSource Raw Key Item ε} (payload : src.Payload)
    (seen : List Key) (count : ℕ) :
    payload.Delivers seen (src.polls payload.records { seen } (count + 1)) ↔
      payload.Unblocked seen := by
  constructor
  · intro delivers before bad after split fails missing raw member new item passes
    have present : raw ∈ payload.records :=
      split ▸ List.mem_append_right _ (List.mem_cons_of_mem bad member)
    have published := (delivers raw present new item passes).1
    have waiting := pending_polls split missing fails member new count
    rw [waiting.2] at published
    cases published
  · intro unblocked raw member new item passes
    have settled := settled_polls unblocked member new passes count
    exact ⟨settled.1, settled.2.mem⟩

/-- The press feed of an agency as a poll source. -/
def pressSource (rt : Runtime) (feed : Press.GovFeed) (fresh : PyValue → Fresh)
    (publish : PyValue → Emitted → Except PyError Unit) :
    PollSource PyValue PyStr Emitted PyError where
  dedupKey := Press.dedupKey rt
  normalize raw := Press.rssToItem rt feed (fresh raw) raw
  publish := publish

/-- The feed of an agency in the runtime of plain text, when every publish succeeds. -/
def cisaSource : PollSource PyValue PyStr Emitted PyError :=
  pressSource .plain cisa (fun _ => epoch) fun _ _ => .ok ()

def recallRelease : PyValue :=
  .dict [(PyStr.of "title", .str (PyStr.of "Recall")), (PyStr.of "guid", .str (PyStr.of "2"))]

/-- The release with the long guid, and one after it. -/
def blockedPayload : cisaSource.Payload where
  records := [longRelease, recallRelease]
  key := Press.reference .plain
  keyed := by decide +kernel
  few := by
    unfold runnerSeenCap
    decide
  distinct := by decide +kernel

/-- Nothing of the second release is ever published. -/
theorem release_blocked : ¬ ∃ count, blockedPayload.Delivers []
    (cisaSource.polls blockedPayload.records { seen := [] } (count + 1)) := by
  rintro ⟨count, delivers⟩
  have fails : cisaSource.Fails longRelease := by
    have raises : (cisaSource.normalize longRelease).isOk = false := by decide +kernel
    cases normal : cisaSource.normalize longRelease with
    | error error => exact .inl ⟨error, normal⟩
    | ok found => simp [normal, Except.isOk, Except.toBool] at raises
  have passes : ∃ item, cisaSource.Passes recallRelease item := by
    have kept : ((cisaSource.normalize recallRelease).toOption.join).isSome = true := by
      decide +kernel
    cases normal : cisaSource.normalize recallRelease with
    | error error => simp [normal, Except.toOption] at kept
    | ok found =>
      cases found with
      | none => simp [normal, Except.toOption] at kept
      | some item => exact ⟨item, normal, rfl⟩
  obtain ⟨item, passes⟩ := passes
  have still : cisaSource.polls blockedPayload.records { seen := [] } (count + 1) =
      { seen := [] } := by
    clear delivers
    have split : blockedPayload.records = [] ++ longRelease :: [recallRelease] := rfl
    induction count with
    | zero => exact fails.pollOnce split rfl (by simp)
    | succ count ih =>
      rw [polls, ih]
      exact fails.pollOnce split rfl (by simp)
  have published := (delivers recallRelease (by simp [blockedPayload]) (by simp) item passes).1
  rw [still] at published
  cases published

end NewsAggregator.Ingest
