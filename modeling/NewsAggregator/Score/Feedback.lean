import Mathlib.Algebra.Order.BigOperators.Group.List
import NewsAggregator.Foundation.Chaotic
import NewsAggregator.Score.Gating
import NewsAggregator.Score.Social

/-! The reputation of authors feeds the scores of their other Stories: what a cycle
writes, the later Stories of the cycle and the next cycle read again. -/

namespace NewsAggregator.Score

open Foundation

/-- The stored inauthenticity of a Story. -/
def Tables.scoreOf (db : Tables) (storyId : Uuid) : ℚ :=
  ((db.stories.find? fun row => row.id = storyId).map ScoredStory.inauthenticity).getD 0

/-- The tables with these scores in them. -/
def Tables.withScores (db : Tables) (scores : Uuid → ℚ) : Tables :=
  { db with stories := db.stories.map fun row => { row with inauthenticity := scores row.id } }

/-- What a cycle would compute for a Story from these scores. -/
def rescore (cfg : Config) (db : Tables) (scores : Uuid → ℚ) (storyId : Uuid) : ℚ :=
  (storyInauthenticity cfg (db.withScores scores) storyId).getD 0

/-- The two states hold the same Stories, items and edges; their scores, the other columns
of their Stories and their other tables may differ. -/
structure Tables.SameWindow (db other : Tables) : Prop where
  items : other.items = db.items
  edges : other.provenanceEdges = db.provenanceEdges
  stories : (other.stories.map fun row => (row.id, row.independentOrigins)) =
    db.stories.map fun row => (row.id, row.independentOrigins)

/-- The Stories an author is judged by: the one of each of its social items. -/
def Tables.judgedIds (db : Tables) (authorRef : String) : List (Option Uuid) :=
  (db.judged authorRef).map (Option.map fun story => story.id)

section Rescore

variable {cfg : Config} {db other : Tables} {scores : Uuid → ℚ} {storyId : Uuid}

theorem judgedIds_eq (db : Tables) (authorRef : String) :
    db.judgedIds authorRef = (db.items.filter fun row =>
      row.item.sourceClass = .social ∧ row.item.authorRef = authorRef).flatMap fun row =>
        let joined := (db.stories.map fun story => story.id).filter fun id => row.storyId = some id
        if joined.isEmpty then [none] else joined.map some := by
  unfold Tables.judgedIds Tables.judged
  rw [List.map_flatMap]
  apply List.flatMap_congr
  intro row _
  simp only [List.filter_map, Function.comp_def, List.isEmpty_map]
  split
  · rfl
  · simp

theorem Tables.SameWindow.ids (same : db.SameWindow other) :
    (other.stories.map fun row => row.id) = db.stories.map fun row => row.id := by
  have projected := congrArg (List.map Prod.fst) same.stories
  simpa [Function.comp_def] using projected

theorem Tables.SameWindow.judgedIds (same : db.SameWindow other) (authorRef : String) :
    other.judgedIds authorRef = db.judgedIds authorRef := by
  rw [judgedIds_eq, judgedIds_eq, same.items, same.ids]

theorem judged_withScores (authorRef : String) :
    (db.withScores scores).judged authorRef = (db.judged authorRef).map
      (Option.map fun row => { row with inauthenticity := scores row.id }) := by
  unfold Tables.judged
  rw [List.map_flatMap]
  apply List.flatMap_congr
  intro row _
  simp only [Tables.withScores, List.filter_map, Function.comp_def, List.isEmpty_map]
  split
  · rfl
  · simp

/-- The verdict on an author, from the scores of the Stories it is judged by. -/
theorem lowReputation_withScores (flagThreshold : ℚ) (repMinItems : ℕ) (repBadShare : ℚ)
    (authorRef : String) :
    (db.withScores scores).lowReputation flagThreshold repMinItems repBadShare authorRef =
      decide (repMinItems ≤ (db.judgedIds authorRef).length ∧ repBadShare ≤
        ((db.judgedIds authorRef).countP fun id => id.any fun id => flagThreshold ≤ scores id : ℚ) /
          (db.judgedIds authorRef).length) := by
  have bad : ((db.withScores scores).judged authorRef).countP (fun story =>
      story.any fun story => flagThreshold ≤ story.inauthenticity) =
        (db.judgedIds authorRef).countP fun id => id.any fun id => flagThreshold ≤ scores id := by
    rw [judged_withScores, Tables.judgedIds, List.countP_map, List.countP_map]
    apply List.countP_congr
    intro story _
    cases story <;> rfl
  have size : ((db.withScores scores).judged authorRef).length =
      (db.judgedIds authorRef).length := by
    rw [judged_withScores, Tables.judgedIds, List.length_map, List.length_map]
  unfold Tables.lowReputation
  dsimp only
  rw [bad, size]

/-- Whom the items of a Story count against, once the authors are judged. -/
def Tables.itemsBy (db : Tables) (storyId : Uuid) (bad : String → Bool) : ℕ :=
  let authored := (db.storyItems storyId .social).filter fun row => row.item.authorRef ≠ ""
  let authors := (authored.map fun row => row.item.authorRef).dedup
  ((authors.filter bad).map fun authorRef =>
    authored.countP fun row => row.item.authorRef = authorRef).sum

theorem itemsBy_mono {bad worse : String → Bool}
    (implies : ∀ authorRef, bad authorRef = true → worse authorRef = true) :
    db.itemsBy storyId bad ≤ db.itemsBy storyId worse := by
  unfold Tables.itemsBy
  dsimp only
  apply List.Sublist.sum_le_sum
  · exact (List.monotone_filter_right _ fun authorRef => implies authorRef).map _
  · exact fun count _ => Nat.zero_le count

theorem find_withScores :
    ((db.withScores scores).stories.find? fun row => row.id = storyId) =
      (db.stories.find? fun row => row.id = storyId).map fun row =>
        { row with inauthenticity := scores row.id } := by
  rw [Tables.withScores, List.find?_map]
  rfl

theorem rescore_eq (cfg : Config) (db : Tables) (scores : Uuid → ℚ) (storyId : Uuid) :
    rescore cfg db scores storyId =
      ((db.stories.find? fun row => row.id = storyId).map fun story =>
        inauthenticity cfg.inauth
          { socialItems := (db.inauthSync storyId cfg.syncWindow).1
            independentOrigins := story.independentOrigins
            copyEdges := db.inauthCopyEdges storyId
            syncedItems := (db.inauthSync storyId cfg.syncWindow).2
            lowRepItems := db.itemsBy storyId ((db.withScores scores).lowReputation
              cfg.inauth.flagThreshold cfg.inauth.repMinItems cfg.inauth.repBadShare) }).getD 0 := by
  rw [rescore, storyInauthenticity_eq, find_withScores, Option.map_map]
  rfl

theorem inauthenticity_mono {inauth : InauthConfig} {social origins copies synced : ℕ}
    {fewer more : ℕ} (weight : 0 ≤ inauth.wLowRep) (le : fewer ≤ more) :
    inauthenticity inauth ⟨social, origins, copies, synced, fewer⟩ ≤
      inauthenticity inauth ⟨social, origins, copies, synced, more⟩ := by
  unfold inauthenticity
  dsimp only
  split
  · exact le_refl 0
  · have share : clamp01 ((fewer : ℚ) / social) ≤ clamp01 ((more : ℚ) / social) := by
      apply clamp01_mono
      gcongr
    apply clamp01_mono
    gcongr

/-- Higher scores anywhere raise what a cycle computes, or leave it as it is. -/
theorem monotone_rescore (weight : 0 ≤ cfg.inauth.wLowRep) (db : Tables) :
    Monotone (rescore cfg db) := by
  intro lower higher le storyId
  rw [rescore_eq, rescore_eq]
  cases db.stories.find? fun row => row.id = storyId with
  | none => exact le_refl 0
  | some story =>
    apply inauthenticity_mono weight
    apply itemsBy_mono
    intro authorRef
    rw [lowReputation_withScores, lowReputation_withScores, decide_eq_true_eq, decide_eq_true_eq]
    rintro ⟨enough, share⟩
    refine ⟨enough, share.trans ?_⟩
    gcongr
    apply List.countP_mono_left
    intro id _ flagged
    cases id with
    | none => simp at flagged
    | some id =>
      rw [Option.any_some, decide_eq_true_eq] at flagged ⊢
      exact flagged.trans (le id)

/-- Of the other scores a cycle only looks at which of them are flagged. -/
theorem marked_rescore (cfg : Config) (db : Tables) :
    Marked (rescore cfg db) fun score => cfg.inauth.flagThreshold ≤ score where
  upward _ _ le flagged := flagged.trans le
  depends first second same := by
    funext storyId
    have judged : (db.withScores first).lowReputation cfg.inauth.flagThreshold
        cfg.inauth.repMinItems cfg.inauth.repBadShare =
          (db.withScores second).lowReputation cfg.inauth.flagThreshold cfg.inauth.repMinItems
            cfg.inauth.repBadShare := by
      funext authorRef
      rw [lowReputation_withScores, lowReputation_withScores]
      simp only [same]
    rw [rescore_eq, rescore_eq, judged]

theorem Tables.SameWindow.find (same : db.SameWindow other) :
    ((other.stories.find? fun row => row.id = storyId).map fun story => story.independentOrigins) =
      (db.stories.find? fun row => row.id = storyId).map fun story => story.independentOrigins := by
  have origins : ∀ tables : Tables,
      ((tables.stories.find? fun row => row.id = storyId).map fun story =>
        story.independentOrigins) =
          ((tables.stories.map fun row => (row.id, row.independentOrigins)).find? fun row =>
            row.1 = storyId).map Prod.snd := by
    intro tables
    rw [List.find?_map, Option.map_map]
    rfl
  rw [origins, origins, same.stories]

theorem Tables.SameWindow.inauthSync (same : db.SameWindow other) :
    other.inauthSync = db.inauthSync := by
  funext storyId window
  simp only [Tables.inauthSync, Tables.storyItems, same.items]

theorem Tables.SameWindow.inauthCopyEdges (same : db.SameWindow other) :
    other.inauthCopyEdges = db.inauthCopyEdges := by
  funext storyId
  simp only [Tables.inauthCopyEdges, same.edges]

theorem Tables.SameWindow.itemsBy (same : db.SameWindow other) : other.itemsBy = db.itemsBy := by
  funext storyId bad
  simp only [Tables.itemsBy, Tables.storyItems, same.items]

theorem Tables.SameWindow.lowReputation (same : db.SameWindow other) :
    (other.withScores scores).lowReputation = (db.withScores scores).lowReputation := by
  funext flagThreshold repMinItems repBadShare authorRef
  rw [lowReputation_withScores, lowReputation_withScores, same.judgedIds]

/-- The operator is that of the window. -/
theorem Tables.SameWindow.rescore (same : db.SameWindow other) :
    rescore cfg other = rescore cfg db := by
  funext scores storyId
  have split : ∀ tables : Tables, Score.rescore cfg tables scores storyId =
      (((tables.stories.find? fun row => row.id = storyId).map fun story =>
        story.independentOrigins).map fun origins => inauthenticity cfg.inauth
          { socialItems := (tables.inauthSync storyId cfg.syncWindow).1
            independentOrigins := origins
            copyEdges := tables.inauthCopyEdges storyId
            syncedItems := (tables.inauthSync storyId cfg.syncWindow).2
            lowRepItems := tables.itemsBy storyId ((tables.withScores scores).lowReputation
              cfg.inauth.flagThreshold cfg.inauth.repMinItems cfg.inauth.repBadShare) }).getD 0 := by
    intro tables
    rw [rescore_eq, Option.map_map]
    rfl
  rw [split, split, same.find, same.inauthSync, same.inauthCopyEdges, same.itemsBy,
    same.lowReputation]

end Rescore

section Stored

variable {db other : Tables} {storyId : Uuid}

theorem Tables.SameWindow.refl (db : Tables) : db.SameWindow db := ⟨rfl, rfl, rfl⟩

theorem Tables.SameWindow.symm (same : db.SameWindow other) : other.SameWindow db :=
  ⟨same.items.symm, same.edges.symm, same.stories.symm⟩

theorem Tables.SameWindow.trans {last : Tables} (first : db.SameWindow other)
    (second : other.SameWindow last) : db.SameWindow last :=
  ⟨second.items.trans first.items, second.edges.trans first.edges,
    second.stories.trans first.stories⟩

theorem Tables.SameWindow.row (same : db.SameWindow other) {origins : ℕ}
    (row : ∃ row ∈ other.stories, row.id = storyId ∧ row.independentOrigins = origins) :
    ∃ row ∈ db.stories, row.id = storyId ∧ row.independentOrigins = origins := by
  obtain ⟨there, member, rfl, rfl⟩ := row
  have pair := List.mem_map_of_mem (f := fun row : ScoredStory => (row.id, row.independentOrigins))
    member
  rw [same.stories] at pair
  obtain ⟨here, present, equal⟩ := List.mem_map.mp pair
  exact ⟨here, present, congrArg Prod.fst equal, congrArg Prod.snd equal⟩

/-- A key finds its row. -/
theorem find_of_mem (keys : (db.stories.map fun row => row.id).Nodup) {row : ScoredStory}
    (member : row ∈ db.stories) : db.stories.find? (fun other => other.id = row.id) = some row := by
  cases found : db.stories.find? fun other => other.id = row.id with
  | none =>
    have absent := List.find?_eq_none.mp found row member
    simp at absent
  | some other =>
    have same : other.id = row.id := by simpa using List.find?_some found
    rw [List.inj_on_of_nodup_map keys (List.mem_of_find?_eq_some found) member same]

theorem scoreOf_of_mem (keys : (db.stories.map fun row => row.id).Nodup) {row : ScoredStory}
    (member : row ∈ db.stories) : db.scoreOf row.id = row.inauthenticity := by
  rw [Tables.scoreOf, find_of_mem keys member]
  rfl

theorem withScores_scoreOf (keys : (db.stories.map fun row => row.id).Nodup) :
    db.withScores db.scoreOf = db := by
  have rows : (db.stories.map fun row => { row with inauthenticity := db.scoreOf row.id }) =
      db.stories := by
    rw [List.map_congr_left (g := id)]
    · exact List.map_id _
    · intro row member
      rw [scoreOf_of_mem keys member]
      rfl
  rw [Tables.withScores, rows]

/-- What `_INAUTH_LOW_REP` counts, from the stored scores. -/
theorem Tables.SameWindow.inauthLowRep (same : db.SameWindow other)
    (keys : (db.stories.map fun row => row.id).Nodup) (flagThreshold : ℚ) (repMinItems : ℕ)
    (repBadShare : ℚ) :
    other.inauthLowRep storyId flagThreshold repMinItems repBadShare =
      db.itemsBy storyId ((db.withScores other.scoreOf).lowReputation flagThreshold repMinItems
        repBadShare) := by
  have there : (other.stories.map fun row => row.id).Nodup := by rwa [same.ids]
  have counted : other.inauthLowRep storyId flagThreshold repMinItems repBadShare =
      other.itemsBy storyId (other.lowReputation flagThreshold repMinItems repBadShare) := rfl
  rw [counted, same.itemsBy, ← same.lowReputation, withScores_scoreOf there]

theorem sameWindow_updateScores (velocityZ mainstreamPresence gap score : ℚ) :
    db.SameWindow (db.updateScores storyId velocityZ mainstreamPresence gap score) where
  items := rfl
  edges := rfl
  stories := by
    rw [Tables.updateScores, List.map_map]
    apply List.map_congr_left
    intro row _
    dsimp only [Function.comp_apply]
    split <;> rfl

theorem scoreOf_updateScores (velocityZ mainstreamPresence gap score : ℚ)
    (present : ∃ row ∈ db.stories, row.id = storyId) :
    (db.updateScores storyId velocityZ mainstreamPresence gap score).scoreOf =
      Function.update db.scoreOf storyId score := by
  funext other
  have kept : ((fun row : ScoredStory => decide (row.id = other)) ∘ fun row : ScoredStory =>
      if row.id = storyId then
        { row with velocityZ, mainstreamPresence, gap, inauthenticity := score }
      else row) = fun row => decide (row.id = other) := by
    funext row
    dsimp only [Function.comp_apply]
    split <;> rfl
  rw [Tables.scoreOf, Tables.updateScores, List.find?_map, kept]
  by_cases same : other = storyId
  · subst same
    obtain ⟨row, member, named⟩ := present
    cases found : db.stories.find? fun row => row.id = other with
    | none =>
      have absent := List.find?_eq_none.mp found row member
      simp [named] at absent
    | some first =>
      have key : first.id = other := by simpa using List.find?_some found
      simp [key]
  · rw [Function.update_of_ne same, Tables.scoreOf]
    cases found : db.stories.find? fun row => row.id = other with
    | none => rfl
    | some first =>
      have key : first.id = other := by simpa using List.find?_some found
      have apart : first.id ≠ storyId := fun equal => same (key.symm.trans equal)
      simp [apart]

end Stored

end NewsAggregator.Score
