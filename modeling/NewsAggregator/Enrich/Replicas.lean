import Mathlib.Data.Fintype.Option
import NewsAggregator.Enrich.Consumer
import NewsAggregator.Foundation.Permit
import NewsAggregator.Foundation.Run

/-! Several replicas of the enrich service over one bucket of seen keys: the statements of
their handlers interleave, and between any two of them a replica may crash. -/

namespace NewsAggregator.Enrich

open Foundation Dedup Bus

variable {ι K : Type} [Field K] [LinearOrder K]

/-- What a replica keeps in memory. -/
structure Replica (K : Type) [Field K] where
  mentions : Counter String := .empty
  gov : AdmissionGovernor K := .initial

/-- The bucket, the replicas and the stream ENRICHED; and what was answered as new, where the
bucket raised, and what it let expire, by the key it keeps. -/
structure Fleet (ι K : Type) [Field K] where
  bucket : Finset String := ∅
  replicas : ι → Replica K := fun _ => {}
  enriched : List (String × EnrichedItem) := []
  fresh : List String := []
  faults : List String := []
  expired : List String := []

/-- What a handler awaits or does to its replica, and the end of a key's time to live. -/
inductive ReplicaStmt (ι K : Type) : Type → Type
  | tally (replica : ι) (item : Item) : ReplicaStmt ι K (Option Item)
  | seen (key : String) : ReplicaStmt ι K Bool
  | gate (replica : ι) (attempt : Attempt K) (relevance : K) (sourceClass : SourceClass) :
      ReplicaStmt ι K (Option Bool)
  | publish (subject : String) (enriched : EnrichedItem) : ReplicaStmt ι K Bool
  | restart (replica : ι) : ReplicaStmt ι K Unit
  | expire (kept : String) : ReplicaStmt ι K Unit

/-- How the bucket and the stream behave: where `create` raises, whether it took effect; and
whether a message is stored, and acknowledged. -/
structure Choice where
  raises : Option Bool := none
  stored : Bool := true
  acked : Bool := true

/-- The handler, statement by statement. -/
def Worker.handling {σ : Type} (worker : Worker K σ) (replica : ι) (attempt : Attempt K)
    (item : Item) : Program (ReplicaStmt ι K) Unit := do
  match ← Program.perform (.tally replica item) with
  | none => .raise
  | some item =>
    let duplicate ← Program.perform (.seen (dedupKey item))
    if duplicate then return ()
    else
      match relevance attempt.classifier item with
      | none => .raise
      | some relevance =>
        match ← Program.perform (.gate replica attempt relevance item.sourceClass) with
        | none => return ()
        | some exploration =>
          match worker.enrich attempt item exploration with
          | none => .raise
          | some (subject, enriched) =>
            let acked ← Program.perform (.publish subject enriched)
            if acked then return () else .raise

section Exec

variable {σ : Type} [DecidableEq ι] (worker : Worker K σ)

def Fleet.setReplica (fleet : Fleet ι K) (replica : ι) (memory : Replica K) : Fleet ι K :=
  { fleet with replicas := Function.update fleet.replicas replica memory }

/-- `NatsKvDeduper.seen`, where the other replicas may have created the key. -/
def Fleet.seen (py : Python) (raises : Option Bool) (key : String) (fleet : Fleet ι K) :
    Bool × Fleet ι K :=
  match raises with
  | none =>
    let (known, bucket) := natsKvSeen py false key fleet.bucket
    (known, { fleet with
      bucket, fresh := if known then fleet.fresh else fleet.fresh ++ [safeKey py key] })
  | some applied =>
    let (_, bucket) := natsKvSeen py (!applied) key fleet.bucket
    (false, { fleet with
      bucket
      fresh := fleet.fresh ++ [safeKey py key]
      faults := fleet.faults ++ [safeKey py key] })

def replicaExec (choice : Choice) : Semantics (ReplicaStmt ι K) (Fleet ι K)
  | _, .tally replica item, fleet =>
    match tally worker.py worker.gazetteer item (fleet.replicas replica).mentions with
    | none => (none, fleet)
    | some (item, mentions) =>
      (some item, fleet.setReplica replica { fleet.replicas replica with mentions })
  | _, .seen key, fleet => fleet.seen worker.py choice.raises key
  | _, .gate replica attempt relevance sourceClass, fleet =>
    let (passed, gov) :=
      gate worker.math (fleet.replicas replica).gov attempt relevance sourceClass
    (passed, fleet.setReplica replica { fleet.replicas replica with gov })
  | _, .publish subject enriched, fleet =>
    (choice.acked, if choice.stored || choice.acked then
      { fleet with enriched := fleet.enriched ++ [(subject, enriched)] } else fleet)
  | _, .restart replica, fleet => ((), fleet.setReplica replica {})
  | _, .expire kept, fleet =>
    ((), if kept ∈ fleet.bucket then
      { fleet with bucket := fleet.bucket.erase kept, expired := fleet.expired ++ [kept] }
    else fleet)

/-- A message reaches the handler of a replica, a statement takes effect, a replica crashes or
starts anew, or a key expires. -/
inductive FleetEvent (ι K : Type) where
  | deliver (replica : ι) (attempt : Attempt K) (item : Item)
  | advance (caller : Option ι) (choice : Choice)
  | crash (replica : ι)
  | restart (replica : ι)
  | expire (kept : String)

/-- The callers are the replicas, and the bucket, which lets keys expire. -/
def Worker.event : FleetEvent ι K → Pool.Event (Option ι) (ReplicaStmt ι K) Choice
  | .deliver replica attempt item => .start (some replica) (worker.handling replica attempt item)
  | .advance caller choice => .advance caller choice
  | .crash replica => .abort (some replica)
  | .restart replica => .start (some replica) (Program.perform (.restart replica))
  | .expire kept => .start none (Program.perform (.expire kept))

def fleetStep (pool : Pool (Option ι) (ReplicaStmt ι K) (Fleet ι K)) (event : FleetEvent ι K) :
    Pool (Option ι) (ReplicaStmt ι K) (Fleet ι K) :=
  pool.step (replicaExec worker) (worker.event event)

end Exec

/-- The messages on the stream for a key. -/
def Fleet.copies (fleet : Fleet ι K) (py : Python) (kept : String) : ℕ :=
  fleet.enriched.countP fun message => safeKey py (dedupKey message.2.item) = kept

section Memory

variable [DecidableEq ι]

omit [LinearOrder K]

@[simp] theorem setReplica_self (fleet : Fleet ι K) (replica : ι) (memory : Replica K) :
    (fleet.setReplica replica memory).replicas replica = memory := Function.update_self ..

@[simp] theorem setReplica_bucket (fleet : Fleet ι K) (replica : ι) (memory : Replica K) :
    (fleet.setReplica replica memory).bucket = fleet.bucket := rfl

@[simp] theorem setReplica_enriched (fleet : Fleet ι K) (replica : ι) (memory : Replica K) :
    (fleet.setReplica replica memory).enriched = fleet.enriched := rfl

end Memory

section Alone

variable [DecidableEq ι]

/-- The part of a fleet that one handler works on. -/
def Fleet.view (fleet : Fleet ι K) (replica : ι) : Inference K (Finset String) where
  dedup := fleet.bucket
  mentions := (fleet.replicas replica).mentions
  gov := (fleet.replicas replica).gov

/-- Alone and undisturbed, a handler does statement by statement what `handle` does. -/
theorem handling_refines (worker : Worker K (Finset String))
    (shared : worker.dedup = natsKv worker.py) (replica : ι) (attempt : Attempt K) (item : Item)
    (fleet : Fleet ι K) :
    let (result, after) := worker.handle attempt item (fleet.view replica)
    let (ended, final) := Program.execute (replicaExec worker {}) none
      (worker.handling replica attempt item) fleet
    ended = result.map (fun _ => ()) ∧ final.bucket = after.dedup ∧
      final.replicas replica = ⟨after.mentions, after.gov⟩ ∧
      final.enriched = fleet.enriched ++ (result.bind Fate.publication).toList := by
  simp only [Worker.handle, Fleet.view, Program.execute, Worker.handling, Program.perform_bind,
    Program.executeFrom, reduceCtorEq, if_false, replicaExec, shared, Deduper.seen, natsKv]
  cases tallied : tally worker.py worker.gazetteer item (fleet.replicas replica).mentions with
  | none => simp [Program.executeFrom]
  | some pair =>
    obtain ⟨merged, mentions⟩ := pair
    by_cases known : safeKey worker.py (dedupKey merged) ∈ fleet.bucket
    · simp [Program.executeFrom, replicaExec, Fleet.seen, natsKvSeen, known, Fate.publication]
    · cases scored : relevance attempt.classifier merged with
      | none => simp [Program.executeFrom, replicaExec, Fleet.seen, natsKvSeen, known, scored]
      | some score =>
        cases gated : gate worker.math (fleet.replicas replica).gov attempt score
          merged.sourceClass with
        | mk passed gov =>
          cases passed with
          | none =>
            simp [Program.executeFrom, replicaExec, Fleet.seen, natsKvSeen, known, scored, gated,
              Fate.publication]
          | some exploration =>
            cases sent : worker.enrich attempt merged exploration with
            | none =>
              cases exploration <;>
                simp [Program.executeFrom, replicaExec, Fleet.seen, natsKvSeen, known, scored,
                  gated, sent]
            | some message =>
              cases exploration <;>
                simp [Program.executeFrom, replicaExec, Fleet.seen, natsKvSeen, known, scored,
                  gated, sent, Fate.publication]

end Alone

/-- Every answer that a key is new has its own reason: the key went into the bucket, the
bucket raised, or it let the key expire; and what the bucket holds was answered so. -/
structure Fleet.Booked (fleet : Fleet ι K) : Prop where
  bounded : ∀ kept, fleet.fresh.count kept ≤
    (if kept ∈ fleet.bucket then 1 else 0) + fleet.faults.count kept + fleet.expired.count kept
  recorded : ∀ kept ∈ fleet.bucket, kept ∈ fleet.fresh

section Seen

omit [LinearOrder K]

variable {fleet : Fleet ι K}

/-- Everything a look into the bucket can do. -/
theorem seen_cases (py : Python) (raises : Option Bool) (key : String) (fleet : Fleet ι K) :
    (safeKey py key ∈ fleet.bucket ∧ fleet.seen py raises key = (true, fleet)) ∨
    (safeKey py key ∉ fleet.bucket ∧ fleet.seen py raises key = (false, { fleet with
      bucket := insert (safeKey py key) fleet.bucket
      fresh := fleet.fresh ++ [safeKey py key] })) ∨
    ∃ bucket, fleet.bucket ⊆ bucket ∧ bucket ⊆ insert (safeKey py key) fleet.bucket ∧
      fleet.seen py raises key = (false, { fleet with
        bucket
        fresh := fleet.fresh ++ [safeKey py key]
        faults := fleet.faults ++ [safeKey py key] }) := by
  by_cases known : safeKey py key ∈ fleet.bucket
  · rcases raises with _ | _ | _
    · exact .inl ⟨known, by simp [Fleet.seen, natsKvSeen, known]⟩
    · exact .inr (.inr ⟨fleet.bucket, subset_rfl, Finset.subset_insert _ _,
        by simp [Fleet.seen, natsKvSeen]⟩)
    · exact .inr (.inr ⟨fleet.bucket, subset_rfl, Finset.subset_insert _ _,
        by simp [Fleet.seen, natsKvSeen, known]⟩)
  · rcases raises with _ | _ | _
    · exact .inr (.inl ⟨known, by simp [Fleet.seen, natsKvSeen, known]⟩)
    · exact .inr (.inr ⟨fleet.bucket, subset_rfl, Finset.subset_insert _ _,
        by simp [Fleet.seen, natsKvSeen]⟩)
    · exact .inr (.inr ⟨_, Finset.subset_insert _ _, subset_rfl,
        by simp [Fleet.seen, natsKvSeen, known]⟩)

theorem Fleet.Booked.seen (booked : fleet.Booked) (py : Python) (raises : Option Bool)
    (key : String) : (fleet.seen py raises key).2.Booked := by
  obtain ⟨bounded, recorded⟩ := booked
  rcases seen_cases py raises key fleet with ⟨_, same⟩ | ⟨absent, same⟩ |
    ⟨bucket, more, fewer, same⟩
  · rw [same]
    exact ⟨bounded, recorded⟩
  · rw [same]
    refine ⟨fun kept => ?_, fun kept member => ?_⟩
    · have before := bounded kept
      simp only [List.count_append, List.count_singleton, Finset.mem_insert, beq_iff_eq]
      by_cases own : kept = safeKey py key
      · subst own
        simp only [absent, if_false, true_or, if_true] at before ⊢
        omega
      · simp only [own, Ne.symm own, false_or, if_false]
        omega
    · rcases Finset.mem_insert.mp member with rfl | old
      · simp
      · exact List.mem_append_left _ (recorded kept old)
  · rw [same]
    refine ⟨fun kept => ?_, fun kept member => ?_⟩
    · have before := bounded kept
      have held : (if kept ∈ fleet.bucket then 1 else 0) ≤ if kept ∈ bucket then 1 else 0 := by
        by_cases inside : kept ∈ fleet.bucket
        · rw [if_pos inside, if_pos (more inside)]
        · rw [if_neg inside]
          exact Nat.zero_le _
      simp only [List.count_append]
      omega
    · rcases Finset.mem_insert.mp (fewer member) with rfl | old
      · simp
      · exact List.mem_append_left _ (recorded kept old)

end Seen

section Once

variable {σ : Type} [DecidableEq ι] (worker : Worker K σ) {fleet : Fleet ι K}

theorem Fleet.Booked.exec (booked : fleet.Booked) {β : Type} (choice : Choice)
    (stmt : ReplicaStmt ι K β) : (replicaExec worker choice β stmt fleet).2.Booked := by
  cases stmt with
  | tally replica item =>
    simp only [replicaExec]
    split <;> exact ⟨booked.bounded, booked.recorded⟩
  | seen key => exact booked.seen worker.py choice.raises key
  | gate replica attempt relevance sourceClass => exact ⟨booked.bounded, booked.recorded⟩
  | publish subject enriched =>
    simp only [replicaExec]
    split <;> exact ⟨booked.bounded, booked.recorded⟩
  | restart replica => exact ⟨booked.bounded, booked.recorded⟩
  | expire kept =>
    simp only [replicaExec]
    split
    · rename_i member
      refine ⟨fun other => ?_, fun other held => ?_⟩
      · have before := booked.bounded other
        simp only [List.count_append, List.count_singleton, Finset.mem_erase, beq_iff_eq]
        by_cases own : other = kept
        · subst own
          simp only [member, if_true, ne_eq, not_true_eq_false, false_and, if_false] at before ⊢
          omega
        · simp only [own, Ne.symm own, ne_eq, not_false_eq_true, true_and, if_false]
          omega
      · exact booked.recorded other (Finset.mem_of_mem_erase held)
    · exact booked

/-- A look into the bucket that answers new permits one message with the key. -/
def freshPermits :
    Permits (replicaExec worker : Choice → Semantics (ReplicaStmt ι K) (Fleet ι K)) String where
  given fleet kept := fleet.fresh.count kept
  used fleet kept := fleet.copies worker.py kept
  gives _ stmt answer :=
    match stmt, answer with
    | .seen key, false => some (safeKey worker.py key)
    | _, _ => none
  uses _ stmt :=
    match stmt with
    | .publish _ enriched => some (safeKey worker.py (dedupKey enriched.item))
    | _ => none
  le_given choice stmt fleet kept := by
    cases stmt with
    | seen key =>
      change _ ≤ ((fleet.seen worker.py choice.raises key).2).fresh.count kept
      rw [show (replicaExec worker choice Bool (.seen key) fleet).1 =
        (fleet.seen worker.py choice.raises key).1 from rfl]
      rcases seen_cases worker.py choice.raises key fleet with ⟨_, same⟩ | ⟨_, same⟩ |
        ⟨_, _, _, same⟩ <;>
      simp [same, permit, List.count_singleton]
    | tally replica item =>
      simp only [replicaExec]
      split <;> simp [permit, Fleet.setReplica]
    | publish subject enriched =>
      simp only [replicaExec]
      split <;> simp [permit]
    | expire other =>
      simp only [replicaExec]
      split <;> simp [permit]
    | gate replica attempt relevance sourceClass => exact le_rfl
    | restart replica => exact le_rfl
  used_le choice stmt fleet kept := by
    cases stmt with
    | publish subject enriched =>
      simp only [replicaExec, permit, Option.some.injEq]
      split
      · simp [Fleet.copies, List.countP_append, List.countP_singleton]
      · exact Nat.le_add_right _ _
    | tally replica item =>
      simp only [replicaExec]
      split <;> exact Nat.le_add_right _ _
    | seen key =>
      rcases seen_cases worker.py choice.raises key fleet with ⟨_, same⟩ | ⟨_, same⟩ |
        ⟨_, _, _, same⟩ <;>
      · simp only [replicaExec, same]
        exact Nat.le_add_right _ _
    | expire other =>
      simp only [replicaExec]
      split <;> exact Nat.le_add_right _ _
    | gate replica attempt relevance sourceClass => exact Nat.le_add_right _ _
    | restart replica => exact Nat.le_add_right _ _

/-- A handler publishes at most what it was permitted to. -/
theorem handling_within (replica : ι) (attempt : Attempt K) (item : Item) :
    (freshPermits worker).Within (fun _ => 0) (worker.handling replica attempt item) := by
  rw [Worker.handling, Program.perform_bind]
  refine Permits.Within.pass rfl (fun _ => rfl) fun tallied => ?_
  cases tallied with
  | none => trivial
  | some merged =>
    dsimp only
    rw [Program.perform_bind]
    refine ⟨fun _ => Nat.zero_le _, fun duplicate => ?_⟩
    cases duplicate with
    | true => trivial
    | false =>
      simp only [Bool.false_eq_true, if_false]
      cases relevance attempt.classifier merged with
      | none => trivial
      | some score =>
        dsimp only
        rw [Program.perform_bind]
        refine Permits.Within.pass rfl (fun _ => rfl) fun passed => ?_
        cases passed with
        | none => trivial
        | some exploration =>
          dsimp only
          cases sent : worker.enrich attempt merged exploration with
          | none => trivial
          | some message =>
            obtain ⟨subject, enriched⟩ := message
            have key := dedupKey_same (enrich_spec sent).2.1
            dsimp only
            rw [Program.perform_bind]
            refine ⟨fun kept => ?_, fun acked => ?_⟩
            · simp only [freshPermits, key]
              omega
            · cases acked <;> trivial

/-- In any interleaving of any number of replicas over one bucket, with crashes, restarts,
redeliveries, messages that are stored but not acknowledged, a bucket that raises and keys
that expire: a key is published once, and again at most as often as the bucket raised on it or
let it expire; and what the bucket holds as seen was answered as new to some handler. -/
theorem replicas_publish_once [Fintype ι] (events : List (FleetEvent ι K)) :
    Always (fleetStep worker) (fun pool =>
      (∀ kept, pool.shared.copies worker.py kept ≤
        1 + pool.shared.faults.count kept + pool.shared.expired.count kept) ∧
      ∀ kept ∈ pool.shared.bucket, kept ∈ pool.shared.fresh) (Pool.idle {}) events := by
  have along : Along (fleetStep worker) (fun _ _ => True)
      (Pool.idle {} : Pool (Option ι) (ReplicaStmt ι K) (Fleet ι K)) events :=
    along_of_forall fun _ _ => trivial
  have always := along.always
    (fun pool => (freshPermits worker).Balanced pool ∧ pool.shared.Booked)
    ⟨Permits.balanced_idle fun _ => le_rfl, ⟨fun _ => le_rfl, nofun⟩⟩ ?_
  · intro before initial
    obtain ⟨balanced, booked⟩ := always before initial
    refine ⟨fun kept => ?_, booked.recorded⟩
    have permitted : (run (fleetStep worker) (Pool.idle {}) before).shared.copies worker.py kept ≤
        (run (fleetStep worker) (Pool.idle {}) before).shared.fresh.count kept :=
      balanced.used_le_given kept
    have bounded := booked.bounded kept
    split at bounded <;> omega
  · rintro pool event ⟨balanced, booked⟩ -
    refine ⟨balanced.step _ fun caller program same => ?_, Pool.step_keeps
      (fun choice stmt fleet kept => kept.exec worker choice stmt) booked _⟩
    cases event with
    | deliver replica attempt item =>
      cases same
      exact handling_within worker replica attempt item
    | restart replica =>
      cases same
      exact Permits.Within.pass rfl (fun _ => rfl) fun _ => trivial
    | expire kept =>
      cases same
      exact Permits.Within.pass rfl (fun _ => rfl) fun _ => trivial
    | advance caller choice => cases same
    | crash replica => cases same

end Once

end NewsAggregator.Enrich
