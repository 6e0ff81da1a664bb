import Mathlib.Tactic.Linarith
import NewsAggregator.Score.Settling

/-! What it takes for a flag, while others change the tables: the reputation of authors
does not flag a Story by itself. -/

namespace NewsAggregator.Score

open Foundation

/-- Each of the signals was counted for the Story in one of these states. -/
structure Observed (cfg : Config) (states : Set Tables) (storyId : Uuid) (sig : StorySignals) :
    Prop where
  origins : ∃ db ∈ states, ∃ row ∈ db.stories,
    row.id = storyId ∧ row.independentOrigins = sig.independentOrigins
  sync : ∃ db ∈ states, db.inauthSync storyId cfg.syncWindow = (sig.socialItems, sig.syncedItems)
  copyEdges : ∃ db ∈ states, db.inauthCopyEdges storyId = sig.copyEdges
  lowRep : ∃ db ∈ states, db.inauthLowRep storyId cfg.inauth.flagThreshold
    cfg.inauth.repMinItems cfg.inauth.repBadShare = sig.lowRepItems

/-- The signals without the reputation of the authors. -/
def StorySignals.direct (sig : StorySignals) : StorySignals := { sig with lowRepItems := 0 }

/-- No Story is flagged. -/
def Tables.Unflagged (cfg : Config) (db : Tables) : Prop :=
  ∀ row ∈ db.stories, row.inauthenticity < cfg.inauth.flagThreshold

namespace Worker

/-- Others flag no Story. -/
def FlagsNothing (cfg : Config) (worker : Worker) : WorkerEvent → Prop
  | .change db => ∀ row ∈ db.stories, cfg.inauth.flagThreshold ≤ row.inauthenticity →
    ∃ old ∈ worker.db.stories, old.id = row.id ∧ cfg.inauth.flagThreshold ≤ old.inauthenticity
  | _ => True

/-- The states a run passes through. -/
def states (cfg : Config) (py : Python) (worker : Worker) (events : List WorkerEvent) :
    Set Tables :=
  {db | ∃ before, before <+: events ∧ (run (Worker.step cfg py) worker before).db = db}

end Worker

/-- Signals of the Story reach the flag, and come near it without reputation. -/
def Supported (cfg : Config) (states : Set Tables) (storyId : Uuid) : Prop :=
  ∃ sig, Observed cfg states storyId sig ∧
    cfg.inauth.flagThreshold ≤ inauthenticity cfg.inauth sig ∧
      cfg.inauth.flagThreshold - cfg.inauth.wLowRep ≤ inauthenticity cfg.inauth sig.direct

/-- Signals of some Story reach the flag without reputation. -/
def HasCause (cfg : Config) (states : Set Tables) : Prop :=
  ∃ storyId sig, Observed cfg states storyId sig ∧
    cfg.inauth.flagThreshold ≤ inauthenticity cfg.inauth sig.direct

section Cause

variable {cfg : Config} {py : Python} {db : Tables} {states more : Set Tables}
  {counts : Counts} {storyId : Uuid} {score : ℚ} {sig : StorySignals}

theorem Observed.mono (observed : Observed cfg states storyId sig) (subset : states ⊆ more) :
    Observed cfg more storyId sig where
  origins := let ⟨db, inside, row⟩ := observed.origins; ⟨db, subset inside, row⟩
  sync := let ⟨db, inside, same⟩ := observed.sync; ⟨db, subset inside, same⟩
  copyEdges := let ⟨db, inside, same⟩ := observed.copyEdges; ⟨db, subset inside, same⟩
  lowRep := let ⟨db, inside, same⟩ := observed.lowRep; ⟨db, subset inside, same⟩

theorem Counts.Gives.observed (gives : counts.Gives cfg storyId score)
    (origin : counts.From cfg states) :
    ∃ sig, Observed cfg states storyId sig ∧ score = inauthenticity cfg.inauth sig := by
  obtain ⟨story, listed, rfl, social, synced, copyEdges, lowRep, sync, copies, low, rfl⟩ := gives
  refine ⟨_, ⟨?_, ?_, ?_, ?_⟩, rfl⟩
  · exact origin.stories story listed
  · exact origin.sync _ sync
  · exact origin.copyEdges _ copies
  · exact origin.lowRep _ low

theorem clamp01_add_le {x y : ℚ} (nonneg : 0 ≤ y) : clamp01 (x + y) ≤ clamp01 x + y := by
  unfold clamp01
  rcases le_total 0 x with positive | negative
  · rw [max_eq_right (le_min zero_le_one (add_nonneg positive nonneg)),
      max_eq_right (le_min zero_le_one positive)]
    rcases le_total 1 x with large | small
    · rw [min_eq_left large]
      exact (min_le_left _ _).trans (le_add_of_nonneg_right nonneg)
    · rw [min_eq_right small]
      exact min_le_right _ _
  · apply max_le
    · exact add_nonneg (le_max_left _ _) nonneg
    · refine (min_le_right _ _).trans ?_
      exact add_le_add_left (negative.trans (le_max_left _ _)) y

theorem clamp01_le_one (x : ℚ) : clamp01 x ≤ 1 := max_le zero_le_one (min_le_left _ _)

theorem clamp01_nonneg (x : ℚ) : 0 ≤ clamp01 x := le_max_left _ _

/-- Reputation adds its weight to the score at most. -/
theorem inauthenticity_le_direct {inauth : InauthConfig} (weight : 0 ≤ inauth.wLowRep)
    (sig : StorySignals) :
    inauthenticity inauth sig ≤ inauthenticity inauth sig.direct + inauth.wLowRep := by
  unfold inauthenticity StorySignals.direct
  dsimp only
  split
  · simpa using weight
  · have none : clamp01 (((0 : ℕ) : ℚ) / sig.socialItems) = 0 := by simp [clamp01]
    rw [none, mul_zero, add_zero]
    have share := mul_nonneg weight (clamp01_nonneg (sig.lowRepItems / sig.socialItems))
    refine (clamp01_add_le share).trans ?_
    gcongr
    exact mul_le_of_le_one_right weight (clamp01_le_one _)

/-- Without a flag no author is of low reputation. -/
theorem inauthLowRep_of_unflagged (bad : 0 < cfg.inauth.repBadShare)
    (unflagged : db.Unflagged cfg) :
    db.inauthLowRep storyId cfg.inauth.flagThreshold cfg.inauth.repMinItems
      cfg.inauth.repBadShare = 0 := by
  have none : ∀ authorRef, db.lowReputation cfg.inauth.flagThreshold cfg.inauth.repMinItems
      cfg.inauth.repBadShare authorRef = false := by
    intro authorRef
    have count : (db.judged authorRef).countP (fun story => story.any fun story =>
        cfg.inauth.flagThreshold ≤ story.inauthenticity) = 0 := by
      rw [List.countP_eq_zero]
      intro story member
      cases story with
      | none => simp
      | some story =>
        have stored : story ∈ db.stories := by
          obtain ⟨row, _, joined⟩ := List.mem_flatMap.mp member
          dsimp only at joined
          split at joined
          · simp at joined
          · obtain ⟨other, listed, same⟩ := List.mem_map.mp joined
            obtain rfl := Option.some.inj same
            exact List.mem_of_mem_filter listed
        simpa using unflagged story stored
    unfold Tables.lowReputation
    dsimp only
    rw [count, Nat.cast_zero, zero_div, decide_eq_false_iff_not, not_and, not_le]
    exact fun _ => bad
  have counted : db.inauthLowRep storyId cfg.inauth.flagThreshold cfg.inauth.repMinItems
      cfg.inauth.repBadShare = db.itemsBy storyId (db.lowReputation cfg.inauth.flagThreshold
        cfg.inauth.repMinItems cfg.inauth.repBadShare) := rfl
  rw [counted, funext none]
  simp [Tables.itemsBy]

theorem Supported.mono (supported : Supported cfg states storyId) (subset : states ⊆ more) :
    Supported cfg more storyId :=
  let ⟨sig, observed, reached⟩ := supported
  ⟨sig, observed.mono subset, reached⟩

theorem HasCause.mono (cause : HasCause cfg states) (subset : states ⊆ more) :
    HasCause cfg more :=
  let ⟨storyId, sig, observed, reached⟩ := cause
  ⟨storyId, sig, observed.mono subset, reached⟩

/-- Signals that reach the flag do so without reputation, or there was a flag before. -/
theorem Observed.hasCause (observed : Observed cfg states storyId sig)
    (bad : 0 < cfg.inauth.repBadShare)
    (flagged : cfg.inauth.flagThreshold ≤ inauthenticity cfg.inauth sig)
    (calm : ∀ db ∈ states, db.Unflagged cfg) : HasCause cfg states := by
  obtain ⟨db, inside, low⟩ := observed.lowRep
  rw [inauthLowRep_of_unflagged bad (calm db inside)] at low
  have same : sig.direct = sig := by rw [StorySignals.direct, low]
  exact ⟨storyId, sig, observed, by rwa [same]⟩

/-- What a worker keeps: its counts are from the states so far, and so are the causes of
the flags. -/
structure Worker.Accountable (cfg : Config) (states : Set Tables) (worker : Worker) : Prop where
  inside : worker.db ∈ states
  counted : worker.Counted cfg states
  supported : ∀ row ∈ worker.db.stories, cfg.inauth.flagThreshold ≤ row.inauthenticity →
    Supported cfg states row.id
  caused : HasCause cfg states ∨ ∀ db ∈ states, db.Unflagged cfg

theorem Worker.Accountable.move {worker next : Worker} (held : worker.Accountable cfg states)
    (counted : next.Counted cfg states)
    (supported : ∀ row ∈ next.db.stories, cfg.inauth.flagThreshold ≤ row.inauthenticity →
      Supported cfg states row.id)
    (caused : HasCause cfg states ∨ next.db.Unflagged cfg) :
    next.Accountable cfg (insert next.db states) where
  inside := Set.mem_insert _ _
  counted :=
    let ⟨counts, obeys, origin⟩ := counted
    ⟨counts, obeys, origin.mono (Set.subset_insert _ _)⟩
  supported row member flagged := (supported row member flagged).mono (Set.subset_insert _ _)
  caused := by
    rcases caused with cause | calm
    · exact .inl (cause.mono (Set.subset_insert _ _))
    · rcases held.caused with cause | before
      · exact .inl (cause.mono (Set.subset_insert _ _))
      · right
        rintro db (rfl | inside)
        · exact calm
        · exact before db inside

theorem Worker.Accountable.change {worker : Worker} (held : worker.Accountable cfg states)
    (permitted : worker.FlagsNothing cfg (.change db)) :
    (worker.step cfg py (.change db)).Accountable cfg
      (insert (worker.step cfg py (.change db)).db states) := by
  apply held.move
  · exact held.counted
  · intro row member flagged
    obtain ⟨old, there, same, before⟩ := permitted row member flagged
    exact same ▸ held.supported old there before
  · refine held.caused.imp id fun calm row member => ?_
    by_contra flagged
    obtain ⟨old, there, _, before⟩ := permitted row member (not_lt.mp flagged)
    exact absurd (calm worker.db held.inside old there) (not_lt.mpr before)

theorem Worker.Accountable.start {worker : Worker} (held : worker.Accountable cfg states)
    (now : Int) : (worker.start cfg py now).Accountable cfg
      (insert (worker.start cfg py now).db states) := by
  have same : (worker.start cfg py now).db = worker.db := by
    rw [Worker.start]
    split <;> rfl
  apply held.move
  · rw [Worker.start]
    split
    · exact held.counted
    · exact ⟨{}, obeys_counting_cycle cfg py now {}, by simp, by simp, by simp, by simp⟩
  · rw [same]
    exact held.supported
  · rw [same]
    exact held.caused.imp id fun calm => calm _ held.inside

/-- A score that is written flags its own story, and for what it observed. -/
theorem Worker.Accountable.supported_updateScores {worker : Worker}
    (held : worker.Accountable cfg states) (vz presence gap : ℚ)
    (supports : cfg.inauth.flagThreshold ≤ score → Supported cfg states storyId) :
    ∀ row ∈ (worker.db.updateScores storyId vz presence gap score).stories,
      cfg.inauth.flagThreshold ≤ row.inauthenticity → Supported cfg states row.id := by
  intro row member flagged
  obtain ⟨old, there, rfl⟩ := List.mem_map.mp member
  split at flagged
  · rename_i named
    rw [if_pos named]
    exact named ▸ supports flagged
  · rename_i other
    rw [if_neg other]
    exact held.supported old there flagged

theorem Tables.Unflagged.updateScores (calm : db.Unflagged cfg) (vz presence gap : ℚ)
    (low : score < cfg.inauth.flagThreshold) :
    (db.updateScores storyId vz presence gap score).Unflagged cfg := by
  intro row member
  obtain ⟨old, there, rfl⟩ := List.mem_map.mp member
  split
  · exact low
  · exact calm old there

theorem Worker.Accountable.advance {worker : Worker} (held : worker.Accountable cfg states)
    (weight : 0 ≤ cfg.inauth.wLowRep) (bad : 0 < cfg.inauth.repBadShare) :
    (worker.advance cfg).Accountable cfg (insert (worker.advance cfg).db states) := by
  have calm := held.caused.imp id fun calm => calm _ held.inside
  obtain ⟨counts, obeys, origin⟩ := held.counted
  rw [Worker.advance]
  cases current : worker.running with
  | done value => exact held.move held.counted held.supported calm
  | raise => exact held.move held.counted held.supported calm
  | call stmt next =>
    rw [current] at obeys
    cases target : stmt.target with
    | none =>
      have stories := (exec_read target worker.db).1
      apply held.move
      · exact ⟨_, obeys.2 _, origin.observe held.inside obeys.1 target⟩
      · dsimp only
        rw [stories]
        exact held.supported
      · dsimp only
        rw [Tables.Unflagged, stories]
        exact calm
    | some storyId =>
      cases stmt with
      | updateScores id vz presence gap score =>
        obtain ⟨sig, observed, rfl⟩ := Counts.Gives.observed obeys.1 origin
        have supports : cfg.inauth.flagThreshold ≤ inauthenticity cfg.inauth sig →
            Supported cfg states id := by
          intro flagged
          have direct := inauthenticity_le_direct weight sig
          exact ⟨sig, observed, flagged, by linarith⟩
        apply held.move
        · exact ⟨_, obeys.2 _, origin.stories, by simp [counting], by simp [counting],
            by simp [counting]⟩
        · exact held.supported_updateScores vz presence gap supports
        · rcases held.caused with cause | before
          · exact .inl cause
          · by_cases flagged : cfg.inauth.flagThreshold ≤ inauthenticity cfg.inauth sig
            · exact .inl (observed.hasCause bad flagged before)
            · exact .inr ((before _ held.inside).updateScores vz presence gap (not_le.mp flagged))
      | _ => cases target

theorem Worker.Accountable.step {worker : Worker} (held : worker.Accountable cfg states)
    (weight : 0 ≤ cfg.inauth.wLowRep) (bad : 0 < cfg.inauth.repBadShare) {event : WorkerEvent}
    (permitted : worker.FlagsNothing cfg event) : (worker.step cfg py event).Accountable cfg
      (insert (worker.step cfg py event).db states) := by
  cases event with
  | change db => exact held.change permitted
  | start now => exact held.start now
  | advance => exact held.advance weight bad
  | abort =>
    apply held.move
    · obtain ⟨counts, _, origin⟩ := held.counted
      exact ⟨counts, trivial, origin⟩
    · exact held.supported
    · exact held.caused.imp id fun calm => calm _ held.inside

theorem states_cons (worker : Worker) (event : WorkerEvent) (rest : List WorkerEvent) :
    worker.states cfg py (event :: rest) =
      insert worker.db ((worker.step cfg py event).states cfg py rest) := by
  ext db
  constructor
  · rintro ⟨before, initial, rfl⟩
    cases before with
    | nil => exact .inl rfl
    | cons first before =>
      obtain ⟨rfl, shorter⟩ := List.cons_prefix_cons.mp initial
      exact .inr ⟨before, shorter, rfl⟩
  · rintro (rfl | ⟨before, shorter, rfl⟩)
    · exact ⟨[], List.nil_prefix, rfl⟩
    · exact ⟨event :: before, List.cons_prefix_cons.mpr ⟨rfl, shorter⟩, rfl⟩

theorem Worker.Accountable.run {worker : Worker} (held : worker.Accountable cfg states)
    (weight : 0 ≤ cfg.inauth.wLowRep) (bad : 0 < cfg.inauth.repBadShare)
    {events : List WorkerEvent}
    (permitted : Along (Worker.step cfg py) (Worker.FlagsNothing cfg) worker events) :
    (Foundation.run (Worker.step cfg py) worker events).Accountable cfg
      (states ∪ worker.states cfg py events) := by
  induction events generalizing worker states with
  | nil =>
    have same : states ∪ worker.states cfg py [] = states := by
      apply Set.union_eq_left.mpr
      rintro db ⟨before, initial, rfl⟩
      rw [List.prefix_nil.mp initial]
      exact held.inside
    rw [same]
    exact held
  | cons event rest ih =>
    have next := ih (held.step weight bad permitted.1) permitted.2
    have first : (worker.step cfg py event).db ∈ (worker.step cfg py event).states cfg py rest :=
      ⟨[], List.nil_prefix, rfl⟩
    rw [Set.insert_union, Set.insert_eq_of_mem (Set.mem_union_right _ first)] at next
    rwa [states_cons, Set.union_insert, Set.insert_eq_of_mem (Set.mem_union_left _ held.inside)]

end Cause

end NewsAggregator.Score
