import Mathlib.Data.Set.Basic
import NewsAggregator.Score.Gating

/-! What a cycle of the score worker counts for a Story, and that it writes the score
these counts give. -/

namespace NewsAggregator.Score

open Foundation

/-- What a cycle has read for the Story it is scoring. -/
structure Counts where
  stories : List ActiveStory := []
  sync : Option (Uuid × ℕ × ℕ) := none
  copyEdges : Option (Uuid × ℕ) := none
  lowRep : Option (Uuid × ℕ) := none

/-- The score is the one these counts give the Story. -/
def Counts.Gives (cfg : Config) (counts : Counts) (storyId : Uuid) (score : ℚ) : Prop :=
  ∃ story ∈ counts.stories, story.id = storyId ∧ ∃ social synced copyEdges lowRep,
    (storyId, social, synced) ∈ counts.sync ∧ (storyId, copyEdges) ∈ counts.copyEdges ∧
      (storyId, lowRep) ∈ counts.lowRep ∧ score = inauthenticity cfg.inauth
        ⟨social, story.independentOrigins, copyEdges, synced, lowRep⟩

/-- A cycle counts with the settings, and writes what its counts give. -/
def counting (cfg : Config) : Discipline ScoreStmt Counts where
  observe counts
    | _, .activeStories _ _, answer => { counts with stories := answer }
    | _, .inauthSync storyId _, answer => { counts with sync := some (storyId, answer) }
    | _, .inauthCopyEdges storyId, answer => { counts with copyEdges := some (storyId, answer) }
    | _, .inauthLowRep storyId _ _ _, answer => { counts with lowRep := some (storyId, answer) }
    | _, .updateScores _ _ _ _ _, _ => { stories := counts.stories }
    | _, _, _ => counts
  allows counts
    | _, .inauthSync _ syncWindow => syncWindow = cfg.syncWindow
    | _, .inauthLowRep _ flagThreshold repMinItems repBadShare =>
      flagThreshold = cfg.inauth.flagThreshold ∧ repMinItems = cfg.inauth.repMinItems ∧
        repBadShare = cfg.inauth.repBadShare
    | _, .updateScores storyId _ _ _ inauthenticity => counts.Gives cfg storyId inauthenticity
    | _, _ => True

/-- Every count is that of one of these states of the tables. -/
structure Counts.From (cfg : Config) (counts : Counts) (states : Set Tables) : Prop where
  stories : ∀ story ∈ counts.stories, ∃ db ∈ states, ∃ row ∈ db.stories,
    row.id = story.id ∧ row.independentOrigins = story.independentOrigins
  sync : ∀ entry ∈ counts.sync, ∃ db ∈ states, db.inauthSync entry.1 cfg.syncWindow = entry.2
  copyEdges : ∀ entry ∈ counts.copyEdges, ∃ db ∈ states, db.inauthCopyEdges entry.1 = entry.2
  lowRep : ∀ entry ∈ counts.lowRep, ∃ db ∈ states, db.inauthLowRep entry.1
    cfg.inauth.flagThreshold cfg.inauth.repMinItems cfg.inauth.repBadShare = entry.2

/-- The Story whose score a statement writes. -/
def ScoreStmt.target {β : Type} : ScoreStmt β → Option Uuid
  | .updateScores storyId _ _ _ _ => some storyId
  | _ => none

/-- The worker is about to do what its counts allow, and they are from these states. -/
def Worker.Counted (cfg : Config) (states : Set Tables) (worker : Worker) : Prop :=
  ∃ counts : Counts, (counting cfg).Obeys (fun _ _ => True) counts worker.running ∧
    counts.From cfg states

section Cycle

variable {cfg : Config} {py : Python} {counts : Counts}

theorem obeys_counting_insertAlert {storyId : Uuid} {gap vz : ℚ} {trustState : TrustState}
    {cooldown : Int} : (counting cfg).Obeys (fun known _ => known = counts) counts
      (insertAlert storyId gap vz trustState cooldown) := by
  refine ⟨trivial, fun answer => ?_⟩
  cases answer with
  | none => trivial
  | some landed => rfl

theorem obeys_counting_scoreStory {stories : List ActiveStory} {story : ActiveStory}
    (member : story ∈ stories) (listed : counts.stories = stories) (now since : Int)
    (warming : Bool) (progress : Progress) :
    (counting cfg).Obeys (fun known _ => known.stories = stories) counts
      (scoreStory cfg py now since warming progress story) := by
  simp only [scoreStory, inauthCounts, Program.perform_bind, Program.call_bind]
  split
  · exact listed
  · refine ⟨trivial, fun buckets => ⟨trivial, fun main => ⟨rfl, fun sync => ⟨trivial,
      fun copyEdges => ⟨⟨rfl, rfl, rfl⟩, fun lowRep => ⟨?_, fun _ => ?_⟩⟩⟩⟩⟩⟩
    · subst listed
      exact ⟨story, member, rfl, _, _, _, _, rfl, rfl, rfl, rfl⟩
    · split
      · refine Discipline.Obeys.bind (obeys_counting_insertAlert.mono ?_)
        rintro known landed rfl
        exact listed
      · exact listed

theorem obeys_counting_cycle (cfg : Config) (py : Python) (now : Int) (counts : Counts) :
    (counting cfg).Obeys (fun _ _ => True) counts (cycle cfg py now) := by
  simp only [cycle, Program.perform_bind]
  refine ⟨trivial, fun earliest => ⟨trivial, fun stories => ?_⟩⟩
  have turns : ∀ story ∈ stories, ∀ (known : Counts) progress, known.stories = stories →
      (counting cfg).Obeys (fun known _ => known.stories = stories) known
        (scoreStory cfg py now (sinceOf cfg now earliest) (isWarming cfg now earliest) progress
          story) :=
    fun story member known progress listed =>
      obeys_counting_scoreStory member listed now _ _ progress
  have listed : ({ counts with stories } : Counts).stories = stories := rfl
  have loop := Discipline.Obeys.foldlM (fun known : Counts => known.stories = stories) turns listed
    {}
  exact Discipline.Obeys.bind (loop.mono fun known progress _ => ⟨trivial, fun _ => trivial⟩)

end Cycle

section Statements

variable {cfg : Config} {counts : Counts} {db other : Tables} {storyId : Uuid} {score : ℚ}

theorem Counts.From.mono {states more : Set Tables} (origin : counts.From cfg states)
    (subset : states ⊆ more) : counts.From cfg more where
  stories story member :=
    let ⟨db, inside, row⟩ := origin.stories story member
    ⟨db, subset inside, row⟩
  sync entry member :=
    let ⟨db, inside, same⟩ := origin.sync entry member
    ⟨db, subset inside, same⟩
  copyEdges entry member :=
    let ⟨db, inside, same⟩ := origin.copyEdges entry member
    ⟨db, subset inside, same⟩
  lowRep entry member :=
    let ⟨db, inside, same⟩ := origin.lowRep entry member
    ⟨db, subset inside, same⟩

theorem mem_activeStories {window : Int} {limit : ℕ} {story : ActiveStory}
    (member : story ∈ db.activeStories window limit) : ∃ row ∈ db.stories,
      row.id = story.id ∧ row.independentOrigins = story.independentOrigins := by
  obtain ⟨row, selected, rfl⟩ := List.mem_map.mp member
  have sorted := (List.mem_insertionSort _).mp (List.mem_of_mem_take selected)
  exact ⟨row, List.mem_of_mem_filter sorted, rfl, rfl⟩

/-- What an answer adds to the counts is from the state that gave it. -/
theorem Counts.From.observe {β : Type} {stmt : ScoreStmt β} {states : Set Tables}
    (origin : counts.From cfg states) (inside : db ∈ states)
    (allowed : (counting cfg).allows counts β stmt) (reads : stmt.target = none) :
    ((counting cfg).observe counts β stmt (exec β stmt db).1).From cfg states := by
  obtain ⟨stories, sync, copyEdges, lowRep⟩ := origin
  cases stmt with
  | activeStories window limit =>
    exact ⟨fun story member => ⟨db, inside, mem_activeStories member⟩, sync, copyEdges, lowRep⟩
  | inauthSync storyId window =>
    obtain rfl : window = cfg.syncWindow := allowed
    refine ⟨stories, fun entry member => ⟨db, inside, ?_⟩, copyEdges, lowRep⟩
    obtain rfl := Option.some.inj member
    rfl
  | inauthCopyEdges storyId =>
    refine ⟨stories, sync, fun entry member => ⟨db, inside, ?_⟩, lowRep⟩
    obtain rfl := Option.some.inj member
    rfl
  | inauthLowRep storyId flagThreshold repMinItems repBadShare =>
    obtain ⟨rfl, rfl, rfl⟩ := allowed
    refine ⟨stories, sync, copyEdges, fun entry member => ⟨db, inside, ?_⟩⟩
    obtain rfl := Option.some.inj member
    rfl
  | updateScores => cases reads
  | _ => exact ⟨stories, sync, copyEdges, lowRep⟩

theorem exec_read {β : Type} {stmt : ScoreStmt β} (reads : stmt.target = none) (db : Tables) :
    (exec β stmt db).2.stories = db.stories ∧ (exec β stmt db).2.items = db.items ∧
      (exec β stmt db).2.provenanceEdges = db.provenanceEdges := by
  cases stmt with
  | updateScores => cases reads
  | insertAlert storyId gap vz trustState cooldown =>
    simp only [exec, Tables.insertAlert]
    split
    · exact ⟨rfl, rfl, rfl⟩
    · split <;> exact ⟨rfl, rfl, rfl⟩
  | _ => exact ⟨rfl, rfl, rfl⟩

end Statements

end NewsAggregator.Score
