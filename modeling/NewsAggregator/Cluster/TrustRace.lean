import NewsAggregator.Cluster.Handle
import NewsAggregator.Foundation.Pool
import NewsAggregator.Foundation.Run
import NewsAggregator.Trust.Match

/-! Any number of cluster, trust and writer handlers whose statements interleave:
when a stored trust state can fall. -/

namespace NewsAggregator.Cluster

open Trust Foundation

/-- A handler begins, commits one statement, or fails. -/
inductive RaceEvent (ι : Type) where
  | cluster (caller : ι) (draw : Draw) (enriched : EnrichedItem)
  | claim (caller : ι) (result : ClaimResult)
  | write (caller : ι) (enriched : EnrichedItem)
  | advance (caller : ι) (surfaced : List (Uuid × Int))
  | abort (caller : ι)

section Race

variable {ι : Type} [DecidableEq ι] (py : Python) (pg : Postgres) (cfg : Config)
  (matcher : MatcherConfig)

def RaceEvent.toPool : RaceEvent ι → Pool.Event ι Stmt (List (Uuid × Int))
  | .cluster caller draw enriched => .start caller (handle py cfg draw enriched)
  | .claim caller result => .start caller (matchClaim py matcher result)
  | .write caller enriched => .start caller (.perform (.insertItem enriched))
  | .advance caller surfaced => .advance caller surfaced
  | .abort caller => .abort caller

def raceStep (pool : Pool ι Stmt Store) (event : RaceEvent ι) : Pool ι Stmt Store :=
  pool.step (exec py pg) (event.toPool py cfg matcher)

/-- The Story and the trust state a statement writes. -/
def writesTrust : ∀ β, Stmt β → Option (Uuid × TrustState)
  | _, .updateTrust storyId _ state => some (storyId, state)
  | _, .promotePrimaryBacked storyId => some (storyId, .primaryBacked)
  | _, _ => none

def readsTrust : ∀ β, Stmt β → β → Option (Uuid × TrustState)
  | _, .storyState storyId, state => some (storyId, state)
  | _, _, _ => none

/-- The trust state a handler has decided on and writes next. -/
def decided : Program Stmt Unit → Option (Uuid × TrustState)
  | .call stmt _ => writesTrust _ stmt
  | _ => none

/-- A write of a trust state does not overtake a lower one that another handler
has decided on and not written yet. -/
def NoOvertaking (pool : Pool ι Stmt Store) : RaceEvent ι → Prop
  | .advance caller _ => ∀ storyId state, decided (pool.running caller) = some (storyId, state) →
      ∀ other, other ≠ caller → ∀ held, decided (pool.running other) = some (storyId, held) →
        state ≤ held
  | _ => True

end Race

theorem storyState_updateStory (store : Store) (storyId other : Uuid)
    (change : StoryRow → StoryRow) (keeps : ∀ row, (change row).id = row.id) :
    storyState (updateStory store storyId change) other = storyState store other ∨
      storyId = other ∧ ∃ row, storyState (updateStory store storyId change) other =
        (change row).trustState := by
  unfold storyState
  rw [storyRow_updateStory storyId other keeps]
  cases store.storyRow other with
  | none => exact .inl rfl
  | some row =>
    by_cases same : other = storyId
    · refine .inr ⟨same.symm, row, ?_⟩
      simp [same]
    · refine .inl ?_
      simp [same]

/-- The trust states as cells: read by `story_state`, written by `update_trust`
and by the promotion. -/
def trustRegister (py : Python) (pg : Postgres) : Register (exec py pg) Uuid TrustState where
  value := storyState
  reads := readsTrust
  writes := writesTrust
  read_eq surfaced stmt store storyId state read := by
    cases stmt with
    | storyState target =>
      obtain ⟨rfl, rfl⟩ : target = storyId ∧ storyState store target = state := by
        simpa [readsTrust, exec] using read
      rfl
    | _ => cases read
  frame surfaced stmt store storyId := by
    cases stmt with
    | updateTrust target origins state =>
      rcases storyState_updateStory store target storyId
        (fun row => { row with independentOrigins := origins, trustState := state })
        (fun _ => rfl) with same | ⟨rfl, row, written⟩
      · exact .inl same
      · refine .inr ?_
        simp only [exec, updateTrust, writesTrust, written]
    | promotePrimaryBacked target =>
      rcases storyState_updateStory store target storyId
        (fun row => { row with trustState := .primaryBacked }) (fun _ => rfl) with
        same | ⟨rfl, row, written⟩
      · exact .inl same
      · refine .inr ?_
        simp only [exec, promotePrimaryBacked, writesTrust, written]
    | insertItem enriched =>
      refine .inl ?_
      simp [exec, storyState, Store.storyRow]
    | createStory target firstSeen entitySet source centroid =>
      exact .inl (storyState_createStory ..)
    | touchStory target lastSeen source entitySet => exact .inl (storyState_touchStory ..)
    | _ => exact .inl rfl

section Handlers

variable {py : Python} {pg : Postgres} {cfg : Config} {draw : Draw} {enriched : EnrichedItem}

private theorem silent {β : Type} {stmt : Stmt β} {next : β → Program Stmt Unit}
    (quiet : writesTrust β stmt = none)
    (rest : ∀ answer, (trustRegister py pg).Admitted (next answer)) :
    (trustRegister py pg).Admitted (.call stmt next) := by
  refine Register.Admitted.call (fun cell value written => ?_) rest
  cases quiet.symm.trans written

/-- The recount writes no lower state than the one it read. -/
private theorem updateTrustOf_admitted {storyId itemId : Uuid} {next : Nat → Program Stmt Unit}
    (rest : ∀ origins, (trustRegister py pg).Admitted (next origins)) :
    (trustRegister py pg).Admitted (updateTrustOf py cfg storyId itemId >>= next) := by
  rw [updateTrustOf]
  simp only [Program.perform_bind, Program.call_bind, Program.pure_eq]
  apply silent rfl
  intro rows
  split
  · exact rest _
  · split
    · exact Register.admitted_raise
    · apply silent rfl
      intro _
      apply silent rfl
      intro stored
      refine Register.Admitted.update rfl (fun current cell value written => ?_) fun _ _ => rest _
      obtain ⟨rfl, rfl⟩ := Prod.mk.inj (Option.some.inj written)
      exact ⟨current, rfl, le_nextState _ _ _ _ _ _⟩

private theorem handle_admitted : (trustRegister py pg).Admitted (handle py cfg draw enriched) := by
  have gate (storyId : Uuid) (origins : Nat) : (trustRegister py pg).Admitted
      (if isCandidate origins then
        if textCap : enriched.item.text.length ≤ maxTextLen then
          .perform (.publishHeavy ⟨storyId, enriched.item.id, enriched.item.text, textCap⟩)
        else .raise
      else pure ()) := by
    split
    · split
      · exact silent rfl fun _ => Register.admitted_done
      · exact Register.admitted_raise
    · exact Register.admitted_done
  rw [handle]
  simp only [Program.perform_bind, Program.pure_eq, Program.done_bind]
  apply silent rfl
  intro rows
  apply silent rfl
  intro stored
  split
  · exact Register.admitted_raise
  · split
    · exact silent rfl fun _ => gate _ _
    · exact silent rfl fun _ => updateTrustOf_admitted (gate _)

private theorem matchClaim_admitted {matcher : MatcherConfig} {claim : ClaimResult} :
    (trustRegister py pg).Admitted (matchClaim py matcher claim) := by
  have promote : (trustRegister py pg).Admitted
      (.perform (.promotePrimaryBacked claim.storyId)) := by
    refine Register.Admitted.call (fun cell value written seen => ?_)
      fun _ => Register.admitted_done
    obtain ⟨rfl, rfl⟩ := Prod.mk.inj (Option.some.inj written)
    cases seen <;> decide
  rw [matchClaim]
  simp only [Program.perform_bind, Program.pure_eq]
  split
  · exact Register.admitted_done
  · apply silent rfl
    intro found
    split
    · exact Register.admitted_done
    · split
      · exact Register.admitted_done
      · split
        · exact Register.admitted_done
        · split
          · exact Register.admitted_done
          · apply silent rfl
            intro rows
            split
            · exact Register.admitted_done
            · exact promote

private theorem orderly {ι : Type} [DecidableEq ι] {matcher : MatcherConfig}
    {pool : Pool ι Stmt Store} {event : RaceEvent ι} (meets : NoOvertaking pool event) :
    (trustRegister py pg).Orderly pool (event.toPool py cfg matcher) := by
  have same (program : Program Stmt Unit) :
      (trustRegister py pg).pending program = decided program := by
    cases program <;> rfl
  cases event with
  | cluster caller draw enriched => exact handle_admitted
  | claim caller result => exact matchClaim_admitted
  | write caller enriched => exact silent rfl fun _ => Register.admitted_done
  | abort caller => trivial
  | advance caller surfaced =>
    intro storyId state next other different held pending
    rw [same] at next pending
    exact meets storyId state next other different held pending

end Handlers

/-- Over any interleaving the stored trust states never fall, if no write of a
trust state overtakes a lower one decided before. -/
theorem trust_never_demotes {ι : Type} [DecidableEq ι] (py : Python) (pg : Postgres) (cfg : Config)
    (matcher : MatcherConfig) (store : Store) (events : List (RaceEvent ι))
    (inOrder : Along (raceStep py pg cfg matcher) NoOvertaking (Pool.idle store) events) :
    Along (raceStep py pg cfg matcher) (fun pool event => ∀ storyId,
      storyState pool.shared storyId ≤
        storyState (raceStep py pg cfg matcher pool event).shared storyId)
      (Pool.idle store) events :=
  inOrder.consequence (trustRegister py pg).Ahead ((trustRegister py pg).ahead_idle store)
    (fun _ _ ahead meets => ahead.step (orderly meets))
    (fun _ _ ahead _ storyId => ahead.monotone _ storyId)

/-- One caller stores a report and clusters it. -/
def alone : List (RaceEvent Unit) :=
  [.write () (report 1 "ann" "mastodon" .social), .advance () [],
    .cluster () ⟨0, 7⟩ (report 1 "ann" "mastodon" .social), .advance () [], .advance () [],
    .advance () []]

theorem trust_never_demotes_alone :
    Along (raceStep Python.plain plainPostgres {} {}) (fun pool event => ∀ storyId,
      storyState pool.shared storyId ≤
        storyState (raceStep Python.plain plainPostgres {} {} pool event).shared storyId)
      (Pool.idle {}) alone :=
  trust_never_demotes Python.plain plainPostgres {} {} {} alone
    (by simp [alone, Along, NoOvertaking])

/-- The trust worker promotes a Story between a recount's read and its write. -/
def lateRecount : List (RaceEvent Nat) :=
  [.write 0 (report 1 "ann" "mastodon" .social), .advance 0 [],
    .write 0 (report 2 "bob" "mastodon" .social), .advance 0 [],
    .write 0 (report 3 "" "usgs" .authoritative), .advance 0 [],
    .cluster 0 ⟨0, 7⟩ (report 1 "ann" "mastodon" .social),
    .advance 0 [], .advance 0 [], .advance 0 [],
    .cluster 0 ⟨0, 8⟩ (report 2 "bob" "mastodon" .social),
    .advance 0 [(1, 1)], .advance 0 [], .advance 0 [], .advance 0 [], .advance 0 [],
    .advance 0 [], .advance 0 [],
    .claim 1 ⟨7, 1, "quake", by decide⟩, .advance 1 [], .advance 1 [], .advance 1 []]

/-- The recount then writes the rumor it had read. -/
theorem trust_demoted :
    ¬ Along (raceStep Python.plain plainPostgres {} {}) (fun pool event => ∀ storyId,
      storyState pool.shared storyId ≤
        storyState (raceStep Python.plain plainPostgres {} {} pool event).shared storyId)
      (Pool.idle {}) (lateRecount ++ [.advance 0 []]) := by
  intro monotone
  have promoted : storyState (run (raceStep Python.plain plainPostgres {} {}) (Pool.idle {})
      lateRecount).shared 7 = .primaryBacked := by decide +kernel
  have demoted : storyState (run (raceStep Python.plain plainPostgres {} {}) (Pool.idle {})
      (lateRecount ++ [.advance 0 []])).shared 7 = .rumor := by decide +kernel
  have last := (along_concat.mp monotone).2 7
  have next := run_concat (raceStep Python.plain plainPostgres {} {}) (Pool.idle {}) lateRecount
    (.advance 0 [])
  rw [← next, promoted, demoted] at last
  exact absurd last (by decide)

end NewsAggregator.Cluster
