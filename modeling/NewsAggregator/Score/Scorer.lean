import NewsAggregator.Foundation.Discipline
import NewsAggregator.Score.Db
import NewsAggregator.Score.Velocity

/-! One cycle of the score worker: re-score the active Stories and raise alerts. -/

namespace NewsAggregator.Score

open Foundation

def ewmaAlpha : ℚ := 3 / 10

/-- The settings of the environment, durations in microseconds. -/
structure Config where
  activeWindow : Int := 48 * 3600000000
  baseline : Int := 5 * 86400000000
  bin : Int := 300000000
  maxStories : ℕ := 200
  gapThreshold : ℚ := 2
  alertCooldown : Int := 6 * 3600000000
  warmMin : Int := 12 * 3600000000
  mainstreamSaturation : ℕ := 3
  syncWindow : Int := 60000000
  inauth : InauthConfig := {}
  binSeconds : 1000000 ≤ bin := by decide
  saturates : 0 < mainstreamSaturation := by decide

/-- `_bin_floor`. -/
def binFloor (bin ts : Int) : Int :=
  let seconds := bin / 1000000
  ts.tdiv 1000000 / seconds * seconds * 1000000

def corroborationWeight : TrustState → ℚ
  | .rumor => 0
  | .corroborated => hundredths 70
  | .primaryBacked => 1

/-- Tally history is absent or too short for a baseline. -/
def isWarming (cfg : Config) (now : Int) (earliest : Option Int) : Bool :=
  earliest.all fun first => now - first < cfg.warmMin

/-- Where the baseline starts. -/
def sinceOf (cfg : Config) (now : Int) (earliest : Option Int) : Int :=
  match earliest with
  | some first => binFloor cfg.bin (max (now - cfg.baseline) first)
  | none => binFloor cfg.bin now

/-- What a cycle counts for its health beat. -/
structure Progress where
  alerted : ℕ := 0
  flagged : ℕ := 0

/-- `inauth_counts`. -/
def inauthCounts (cfg : Config) (storyId : Uuid) : Program ScoreStmt (ℕ × ℕ × ℕ × ℕ) := do
  let (social, synced) ← .perform (.inauthSync storyId cfg.syncWindow)
  let copyEdges ← .perform (.inauthCopyEdges storyId)
  let lowRep ← .perform (.inauthLowRep storyId cfg.inauth.flagThreshold cfg.inauth.repMinItems
    cfg.inauth.repBadShare)
  .done (social, synced, copyEdges, lowRep)

/-- `insert_alert`; a taken key raises. -/
def insertAlert (storyId : Uuid) (gap velocityZ : ℚ) (trustState : TrustState) (cooldown : Int) :
    Program ScoreStmt Bool := do
  match ← .perform (.insertAlert storyId gap velocityZ trustState cooldown) with
  | some landed => .done landed
  | none => .raise

/-- One turn of the loop over the active Stories. -/
def scoreStory (cfg : Config) (py : Python) (now since : Int) (warming : Bool)
    (progress : Progress) (story : ActiveStory) : Program ScoreStmt Progress :=
  if story.entitySet = ∅ then .done progress
  else do
    let buckets ← .perform (.mentionSeries story.entitySet since cfg.bin)
    let vz := velocityZ py.sqrt ewmaAlpha
      (fillSeries buckets since (binFloor cfg.bin now) cfg.bin)
    let main ← .perform (.mainstreamCount story.id)
    let presence := min 1 ((main : ℚ) / cfg.mainstreamSaturation)
    let trust := story.trustState
    let (social, synced, copyEdges, lowRep) ← inauthCounts cfg story.id
    let inauth := inauthenticity cfg.inauth
      ⟨social, story.independentOrigins, copyEdges, synced, lowRep⟩
    let flagged := if cfg.inauth.flagThreshold ≤ inauth then progress.flagged + 1
      else progress.flagged
    let gap := gapScore vz presence (corroborationWeight trust) inauth
    .perform (.updateScores story.id vz presence gap inauth)
    if warming = false ∧ cfg.gapThreshold < gap ∧ trust ≠ .rumor then do
      let landed ← insertAlert story.id gap vz trust cfg.alertCooldown
      .done ⟨if landed then progress.alerted + 1 else progress.alerted, flagged⟩
    else .done ⟨progress.alerted, flagged⟩

/-- `Scorer.cycle`. -/
def cycle (cfg : Config) (py : Python) (now : Int) : Program ScoreStmt Unit := do
  let earliest ← .perform (.earliestBucket cfg.baseline)
  let warming := isWarming cfg now earliest
  let since := sinceOf cfg now earliest
  let stories ← .perform (.activeStories cfg.activeWindow cfg.maxStories)
  let progress ← stories.foldlM (scoreStory cfg py now since warming) {}
  .perform (.upsertSystemState "score"
    ⟨warming, stories.length, progress.flagged, progress.alerted, now⟩)

/-- What a cycle has read that its alerts depend on. -/
structure Reads where
  now : Int := 0
  earliest : Option Int := none
  stories : List ActiveStory := []

/-- The alert follows from what the cycle has read. -/
structure Warranted (cfg : Config) (reads : Reads) (storyId : Uuid) (gap : ℚ)
    (trustState : TrustState) : Prop where
  gap : cfg.gapThreshold < gap
  trust : trustState = .corroborated ∨ trustState = .primaryBacked
  read : ∃ story ∈ reads.stories, story.id = storyId ∧ story.trustState = trustState
  warm : ∃ first ∈ reads.earliest, cfg.warmMin ≤ reads.now - first

/-- A cycle only raises what its reads warrant. -/
def gating (cfg : Config) : Discipline ScoreStmt Reads where
  observe reads
    | _, .earliestBucket _, answer => { reads with earliest := answer }
    | _, .activeStories _ _, answer => { reads with stories := answer }
    | _, _, _ => reads
  allows reads
    | _, .insertAlert storyId gap _ trustState cooldown =>
      cooldown = cfg.alertCooldown ∧ Warranted cfg reads storyId gap trustState
    | _, _ => True

section Cycle

variable {cfg : Config} {py : Python} {reads : Reads}

theorem isWarming_eq_false {earliest : Option Int} {now : Int} :
    isWarming cfg now earliest = false ↔ ∃ first ∈ earliest, cfg.warmMin ≤ now - first := by
  cases earliest <;> simp [isWarming]

theorem obeys_insertAlert {storyId : Uuid} {gap vz : ℚ} {trustState : TrustState}
    (warranted : Warranted cfg reads storyId gap trustState) :
    (gating cfg).Obeys (fun known _ => known = reads) reads
      (insertAlert storyId gap vz trustState cfg.alertCooldown) := by
  refine ⟨⟨rfl, warranted⟩, fun answer => ?_⟩
  cases answer with
  | none => trivial
  | some landed => rfl

theorem obeys_scoreStory (reads : Reads) {story : ActiveStory}
    (member : story ∈ reads.stories) (since : Int) (progress : Progress) :
    (gating cfg).Obeys (fun known _ => known = reads) reads
      (scoreStory cfg py reads.now since (isWarming cfg reads.now reads.earliest) progress
        story) := by
  simp only [scoreStory, inauthCounts, Program.perform_bind, Program.call_bind]
  split
  · rfl
  · refine ⟨trivial, fun buckets => ⟨trivial, fun main => ⟨trivial, fun sync => ⟨trivial,
      fun copyEdges => ⟨trivial, fun lowRep => ⟨trivial, fun _ => ?_⟩⟩⟩⟩⟩⟩
    split
    · rename_i rule
      obtain ⟨warm, gap, trust⟩ := rule
      have promoted : story.trustState = .corroborated ∨ story.trustState = .primaryBacked := by
        cases held : story.trustState with
        | rumor => exact absurd held trust
        | corroborated => exact .inl rfl
        | primaryBacked => exact .inr rfl
      refine Discipline.Obeys.bind (Discipline.Obeys.mono (obeys_insertAlert ?_) ?_)
      · exact ⟨gap, promoted, ⟨story, member, rfl, rfl⟩, isWarming_eq_false.mp warm⟩
      · exact fun known landed same => same
    · rfl

/-- Whatever the database answers, a cycle raises no alert its reads do not warrant. -/
theorem obeys_cycle (cfg : Config) (py : Python) (now : Int) :
    (gating cfg).Obeys (fun _ _ => True) ⟨now, none, []⟩ (cycle cfg py now) := by
  simp only [cycle, Program.perform_bind]
  refine ⟨trivial, fun earliest => ⟨trivial, fun stories => ?_⟩⟩
  let reads : Reads := ⟨now, earliest, stories⟩
  have turns : ∀ story ∈ stories, ∀ known progress, known = reads →
      (gating cfg).Obeys (fun known _ => known = reads) known
        (scoreStory cfg py now (sinceOf cfg now earliest) (isWarming cfg now earliest) progress
          story) := by
    intro story member known progress same
    subst same
    exact obeys_scoreStory reads member _ progress
  have loop := Discipline.Obeys.foldlM (· = reads) turns rfl {}
  exact Discipline.Obeys.bind (loop.mono fun known progress _ => ⟨trivial, fun _ => trivial⟩)

end Cycle

end NewsAggregator.Score
