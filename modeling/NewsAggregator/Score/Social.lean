import Mathlib.Algebra.GroupWithZero.Nat
import Mathlib.Algebra.Order.Field.Basic
import Mathlib.Data.List.Perm.Basic
import Mathlib.Tactic.GCongr
import NewsAggregator.Score.Scorer
import NewsAggregator.Score.Sync

/-! What of a Story its inauthenticity depends on: its social items and their
authors, and two numbers taken over the whole Story. -/

namespace NewsAggregator.Score

open Foundation Trust

/-- What a cycle reads of a Story with these independent origins. -/
def signals (cfg : Config) (db : Tables) (storyId : Uuid) (independentOrigins : ℕ) :
    StorySignals where
  socialItems := (db.inauthSync storyId cfg.syncWindow).1
  independentOrigins
  copyEdges := db.inauthCopyEdges storyId
  syncedItems := (db.inauthSync storyId cfg.syncWindow).2
  lowRepItems := db.inauthLowRep storyId cfg.inauth.flagThreshold cfg.inauth.repMinItems
    cfg.inauth.repBadShare

/-- The inauthenticity a cycle computes for a Story: `inauth_counts` and the formula. -/
def storyInauthenticity (cfg : Config) (db : Tables) (storyId : Uuid) : Option ℚ := do
  let story ← db.stories.find? fun row => row.id = storyId
  let (social, synced, copyEdges, lowRep) ←
    (Program.execute exec none (inauthCounts cfg storyId) db).1
  some (inauthenticity cfg.inauth ⟨social, story.independentOrigins, copyEdges, synced, lowRep⟩)

/-- The item is a social one of the Story. -/
def Tables.IsSocial (db : Tables) (storyId itemId : Uuid) : Prop :=
  ∃ row ∈ db.storyItems storyId .social, row.item.id = itemId

instance Tables.IsSocial.decidable (db : Tables) (storyId itemId : Uuid) :
    Decidable (db.IsSocial storyId itemId) :=
  inferInstanceAs (Decidable (∃ row ∈ _, _))

/-- Both ends of the edge are social items of the Story. -/
def Tables.Inner (db : Tables) (storyId : Uuid) (row : EdgeRow) : Prop :=
  db.IsSocial storyId row.srcItem ∧ db.IsSocial storyId row.dstItem

instance Tables.Inner.decidable (db : Tables) (storyId : Uuid) (row : EdgeRow) :
    Decidable (db.Inner storyId row) :=
  inferInstanceAs (Decidable (_ ∧ _))

def Tables.storyEdges (db : Tables) (storyId : Uuid) : List EdgeRow :=
  db.provenanceEdges.filter fun row => row.storyId = storyId

/-- A COPY or AUTHOR edge. -/
def Amplifies (row : EdgeRow) : Bool := row.edgeType = .copy ∨ row.edgeType = .author

/-- What an author's reputation is judged by: the inauthenticity of the Story of each
of its social items. -/
def Tables.record (db : Tables) (authorRef : String) : List (Option ℚ) :=
  (db.judged authorRef).map fun story => story.map ScoredStory.inauthenticity

/-- Two states of the tables agree on the social part of a Story. -/
structure SameSocial (storyId : Uuid) (db other : Tables) : Prop where
  items : (db.storyItems storyId .social).Perm (other.storyItems storyId .social)
  edges : ((db.storyEdges storyId).filter (db.Inner storyId)).Perm
    ((other.storyEdges storyId).filter (other.Inner storyId))
  records : ∀ row ∈ db.storyItems storyId .social, row.item.authorRef ≠ "" →
    (db.record row.item.authorRef).Perm (other.record row.item.authorRef)

/-- The two states also agree on what is counted over the whole Story: its independent
origins, and how many COPY and AUTHOR edges have an end outside the social part. -/
structure SameWhole (storyId : Uuid) (db other : Tables) : Prop where
  origins : ((db.stories.find? fun row => row.id = storyId).map fun story =>
      story.independentOrigins) =
    (other.stories.find? fun row => row.id = storyId).map fun story => story.independentOrigins
  copies : ((db.storyEdges storyId).filter fun row => ¬ db.Inner storyId row).countP Amplifies =
    ((other.storyEdges storyId).filter fun row => ¬ other.Inner storyId row).countP Amplifies

/-- A member joins the Story with its edges, and the origins are counted again. -/
def Tables.addMember (db : Tables) (storyId : Uuid) (member : ItemRow) (edges : List EdgeRow)
    (origins : ℕ) : Tables :=
  { db with
    items := db.items ++ [{ member with storyId := some storyId }]
    provenanceEdges := db.provenanceEdges ++ edges
    stories := db.stories.map fun row =>
      if row.id = storyId then { row with independentOrigins := origins } else row }

variable {cfg : Config} {db other : Tables} {storyId : Uuid}

theorem storyInauthenticity_eq (cfg : Config) (db : Tables) (storyId : Uuid) :
    storyInauthenticity cfg db storyId =
      (db.stories.find? fun row => row.id = storyId).map fun story =>
        inauthenticity cfg.inauth (signals cfg db storyId story.independentOrigins) := by
  unfold storyInauthenticity
  cases db.stories.find? fun row => row.id = storyId with
  | none => rfl
  | some story => rfl

theorem inauthSync_congr (items : (db.storyItems storyId .social).Perm
    (other.storyItems storyId .social)) (window : Int) :
    db.inauthSync storyId window = other.inauthSync storyId window := by
  have same : socialTimes db storyId = socialTimes other storyId :=
    Multiset.coe_eq_coe.mpr (items.map observed)
  rw [inauthSync_eq, inauthSync_eq, same]

theorem lowReputation_congr {authorRef : String}
    (records : (db.record authorRef).Perm (other.record authorRef)) (flagThreshold : ℚ)
    (repMinItems : ℕ) (repBadShare : ℚ) :
    db.lowReputation flagThreshold repMinItems repBadShare authorRef =
      other.lowReputation flagThreshold repMinItems repBadShare authorRef := by
  have length : (db.judged authorRef).length = (other.judged authorRef).length := by
    simpa [Tables.record] using records.length_eq
  have flagged : ∀ tables : Tables,
      (tables.judged authorRef).countP (fun story =>
        story.any fun story => flagThreshold ≤ story.inauthenticity) =
      (tables.record authorRef).countP fun score =>
        score.any fun score => flagThreshold ≤ score := by
    intro tables
    rw [Tables.record, List.countP_map]
    apply List.countP_congr
    intro story _
    cases story <;> rfl
  unfold Tables.lowReputation
  dsimp only
  rw [flagged db, flagged other, length, records.countP_eq]

theorem inauthLowRep_congr (items : (db.storyItems storyId .social).Perm
      (other.storyItems storyId .social))
    (records : ∀ row ∈ db.storyItems storyId .social, row.item.authorRef ≠ "" →
      (db.record row.item.authorRef).Perm (other.record row.item.authorRef))
    (flagThreshold : ℚ) (repMinItems : ℕ) (repBadShare : ℚ) :
    db.inauthLowRep storyId flagThreshold repMinItems repBadShare =
      other.inauthLowRep storyId flagThreshold repMinItems repBadShare := by
  have authored := items.filter fun row => row.item.authorRef ≠ ""
  have authors := (authored.map fun row => row.item.authorRef).dedup
  have judgedAlike : ∀ authorRef ∈ (((db.storyItems storyId .social).filter fun row =>
      row.item.authorRef ≠ "").map fun row => row.item.authorRef).dedup,
      db.lowReputation flagThreshold repMinItems repBadShare authorRef =
        other.lowReputation flagThreshold repMinItems repBadShare authorRef := by
    intro authorRef member
    obtain ⟨row, listed, rfl⟩ := List.mem_map.mp (List.mem_dedup.mp member)
    obtain ⟨social, named⟩ := List.mem_filter.mp listed
    exact lowReputation_congr (records row social (of_decide_eq_true named)) _ _ _
  unfold Tables.inauthLowRep
  dsimp only
  rw [List.filter_congr judgedAlike]
  have counts := (authors.filter (other.lowReputation flagThreshold repMinItems repBadShare)).map
    fun authorRef => ((db.storyItems storyId .social).filter fun row =>
      row.item.authorRef ≠ "").countP fun row => row.item.authorRef = authorRef
  rw [counts.sum_nat]
  congr 1
  apply List.map_congr_left
  intro authorRef _
  exact authored.countP_eq _

theorem inauthCopyEdges_eq (db : Tables) (storyId : Uuid) :
    db.inauthCopyEdges storyId =
      ((db.storyEdges storyId).filter (db.Inner storyId)).countP Amplifies +
        ((db.storyEdges storyId).filter fun row => ¬ db.Inner storyId row).countP Amplifies := by
  have whole : db.inauthCopyEdges storyId = (db.storyEdges storyId).countP Amplifies := by
    rw [Tables.inauthCopyEdges, Tables.storyEdges, List.countP_filter]
    apply List.countP_congr
    intro row _
    simp [Amplifies, and_comm]
  rw [whole, List.countP_eq_countP_filter_add _ _ (db.Inner storyId)]
  congr 2
  apply List.filter_congr
  intro row _
  simp

theorem clamp01_mono {x y : ℚ} (le : x ≤ y) : clamp01 x ≤ clamp01 y := by
  unfold clamp01
  gcongr

/-- More origins and fewer edges over the same social items do not raise the score. -/
theorem inauthenticity_le {cfg : InauthConfig} {before after : StorySignals}
    (amplification : 0 ≤ cfg.wAmplification) (copy : 0 ≤ cfg.wCopy)
    (social : after.socialItems = before.socialItems)
    (synced : after.syncedItems = before.syncedItems)
    (lowRep : after.lowRepItems = before.lowRepItems)
    (origins : before.independentOrigins ≤ after.independentOrigins)
    (edges : after.copyEdges ≤ before.copyEdges) :
    inauthenticity cfg after ≤ inauthenticity cfg before := by
  unfold inauthenticity
  rw [social, synced, lowRep]
  split
  · exact le_refl 0
  · dsimp only
    have fewer : clamp01 (1 - (after.independentOrigins : ℚ) / before.socialItems) ≤
        clamp01 (1 - (before.independentOrigins : ℚ) / before.socialItems) := by
      apply clamp01_mono
      gcongr
    have thinner : clamp01 ((after.copyEdges : ℚ) / before.socialItems) ≤
        clamp01 ((before.copyEdges : ℚ) / before.socialItems) := by
      apply clamp01_mono
      gcongr
    apply clamp01_mono
    gcongr

theorem storyInauthenticity_congr (cfg : Config) (social : SameSocial storyId db other)
    (whole : SameWhole storyId db other) :
    storyInauthenticity cfg db storyId = storyInauthenticity cfg other storyId := by
  have same : signals cfg db storyId = signals cfg other storyId := by
    funext origins
    have copies : db.inauthCopyEdges storyId = other.inauthCopyEdges storyId := by
      rw [inauthCopyEdges_eq, inauthCopyEdges_eq, social.edges.countP_eq, whole.copies]
    unfold signals
    rw [inauthSync_congr social.items, inauthLowRep_congr social.items social.records, copies]
  have composed : ∀ tables : Tables, storyInauthenticity cfg tables storyId =
      ((tables.stories.find? fun row => row.id = storyId).map fun story =>
        story.independentOrigins).map fun origins =>
          inauthenticity cfg.inauth (signals cfg tables storyId origins) := by
    intro tables
    rw [storyInauthenticity_eq, Option.map_map]
    rfl
  rw [composed, composed, whole.origins, same]

section AddMember

variable {member : ItemRow} {edges : List EdgeRow} {origins : ℕ}

theorem storyItems_addMember (outside : member.item.sourceClass ≠ .social) :
    (db.addMember storyId member edges origins).storyItems storyId .social =
      db.storyItems storyId .social := by
  simp [Tables.storyItems, Tables.addMember, outside]

/-- The scores of the Stories a row is in. -/
def Tables.scores (db : Tables) (row : ItemRow) : List ℚ :=
  (db.stories.filter fun story => row.storyId = some story.id).map ScoredStory.inauthenticity

theorem record_eq (db : Tables) (authorRef : String) :
    db.record authorRef = (db.items.filter fun row =>
      row.item.sourceClass = .social ∧ row.item.authorRef = authorRef).flatMap fun row =>
        if (db.scores row).isEmpty then [none] else (db.scores row).map some := by
  rw [Tables.record, Tables.judged, List.map_flatMap]
  apply List.flatMap_congr
  intro row _
  have empty : (db.scores row).isEmpty =
      (db.stories.filter fun story => row.storyId = some story.id).isEmpty := List.isEmpty_map
  simp only [empty]
  split
  · rfl
  · rw [Tables.scores, List.map_map, List.map_map]
    rfl

theorem scores_addMember (row : ItemRow) :
    (db.addMember storyId member edges origins).scores row = db.scores row := by
  rw [Tables.scores, Tables.addMember, List.filter_map, List.map_map, Tables.scores]
  have kept : ∀ story : ScoredStory, (if story.id = storyId then
      { story with independentOrigins := origins } else story).id = story.id := by
    intro story
    split <;> rfl
  have scored : ∀ story : ScoredStory, (if story.id = storyId then
      { story with independentOrigins := origins } else story).inauthenticity =
        story.inauthenticity := by
    intro story
    split <;> rfl
  simp only [Function.comp_def, kept, scored]

theorem record_addMember (outside : member.item.sourceClass ≠ .social) (authorRef : String) :
    (db.addMember storyId member edges origins).record authorRef = db.record authorRef := by
  have rows : ((db.addMember storyId member edges origins).items.filter fun row =>
      row.item.sourceClass = .social ∧ row.item.authorRef = authorRef) =
      db.items.filter fun row =>
        row.item.sourceClass = .social ∧ row.item.authorRef = authorRef := by
    simp [Tables.addMember, outside]
  rw [record_eq, record_eq, rows]
  simp only [scores_addMember]

theorem inauthCopyEdges_addMember
    (plain : ∀ row ∈ edges, row.storyId = storyId → ¬ Amplifies row) :
    (db.addMember storyId member edges origins).inauthCopyEdges storyId =
      db.inauthCopyEdges storyId := by
  have none : edges.countP (fun row => row.storyId = storyId ∧
      (row.edgeType = .copy ∨ row.edgeType = .author)) = 0 := by
    rw [List.countP_eq_zero]
    intro row member
    simp only [decide_eq_true_eq]
    exact fun counted => plain row member counted.1 (decide_eq_true counted.2)
  rw [Tables.inauthCopyEdges, Tables.addMember, List.countP_append, none]
  rfl

theorem sameSocial_addMember (outside : member.item.sourceClass ≠ .social)
    (apart : ∀ row ∈ edges, row.storyId = storyId → ¬ db.Inner storyId row) :
    SameSocial storyId db (db.addMember storyId member edges origins) where
  items := by rw [storyItems_addMember outside]
  edges := by
    have inner : (db.addMember storyId member edges origins).Inner storyId = db.Inner storyId := by
      unfold Tables.Inner Tables.IsSocial
      rw [storyItems_addMember outside]
    have none : (edges.filter fun row => row.storyId = storyId).filter (db.Inner storyId) = [] := by
      rw [List.filter_filter, List.filter_eq_nil_iff]
      intro row member kept
      obtain ⟨both, story⟩ := (Bool.and_eq_true _ _).mp kept
      exact apart row member (of_decide_eq_true story) (of_decide_eq_true both)
    have drawn : (db.addMember storyId member edges origins).storyEdges storyId =
        db.storyEdges storyId ++ edges.filter fun row => row.storyId = storyId :=
      List.filter_append _ _
    simp only [inner, drawn, List.filter_append, none, List.append_nil]
    exact List.Perm.refl _
  records row _ _ := by rw [record_addMember outside]

theorem find_addMember : ((db.addMember storyId member edges origins).stories.find? fun row =>
      row.id = storyId) = (db.stories.find? fun row => row.id = storyId).map fun row =>
        { row with independentOrigins := origins } := by
  rw [Tables.addMember, List.find?_map]
  have kept : ((fun row : ScoredStory => decide (row.id = storyId)) ∘ fun row : ScoredStory =>
      if row.id = storyId then { row with independentOrigins := origins } else row) =
      fun row => decide (row.id = storyId) := by
    funext row
    dsimp only [Function.comp_apply]
    split <;> rfl
  rw [kept]
  cases found : db.stories.find? fun row => row.id = storyId with
  | none => rfl
  | some story =>
    have named := List.find?_some found
    rw [decide_eq_true_eq] at named
    simp [named]

/-- A non-social member without COPY and AUTHOR edges does not raise the score while the
origins do not become fewer. -/
theorem storyInauthenticity_addMember_le (amplification : 0 ≤ cfg.inauth.wAmplification)
    (copy : 0 ≤ cfg.inauth.wCopy) (outside : member.item.sourceClass ≠ .social)
    (plain : ∀ row ∈ edges, row.storyId = storyId → ¬ Amplifies row)
    (more : ∀ story ∈ db.stories.find? fun row => row.id = storyId,
      story.independentOrigins ≤ origins)
    {before after : ℚ} (earlier : before ∈ storyInauthenticity cfg db storyId)
    (later : after ∈ storyInauthenticity cfg (db.addMember storyId member edges origins) storyId) :
    after ≤ before := by
  rw [storyInauthenticity_eq] at earlier later
  rw [find_addMember, Option.map_map] at later
  obtain ⟨story, found, rfl⟩ := Option.map_eq_some_iff.mp earlier
  rw [found] at later
  obtain rfl := Option.some.inj later
  have items : (db.storyItems storyId .social).Perm
      ((db.addMember storyId member edges origins).storyItems storyId .social) := by
    rw [storyItems_addMember outside]
  have sync := inauthSync_congr items cfg.syncWindow
  apply inauthenticity_le amplification copy
  · exact congrArg Prod.fst sync.symm
  · exact congrArg Prod.snd sync.symm
  · symm
    apply inauthLowRep_congr items
    intro row _ _
    rw [record_addMember outside]
  · exact more story found
  · exact (inauthCopyEdges_addMember plain).le

end AddMember

/-- Beside its social part, only the stored origins and the edges outside that part
reach the inauthenticity of a Story. A non-social member does not raise it, as long as
it brings no COPY or AUTHOR edge and costs no origin. -/
theorem judges_social_part (cfg : Config) (storyId : Uuid) :
    (∀ db other, SameSocial storyId db other → SameWhole storyId db other →
      storyInauthenticity cfg db storyId = storyInauthenticity cfg other storyId) ∧
    (0 ≤ cfg.inauth.wAmplification → 0 ≤ cfg.inauth.wCopy → ∀ db member edges origins,
      member.item.sourceClass ≠ .social →
      (∀ row ∈ edges, row.storyId = storyId → ¬ Amplifies row) →
      (∀ story ∈ db.stories.find? fun row => row.id = storyId,
        story.independentOrigins ≤ origins) →
      ∀ before ∈ storyInauthenticity cfg db storyId,
        ∀ after ∈ storyInauthenticity cfg (db.addMember storyId member edges origins) storyId,
          after ≤ before) := by
  constructor
  · intro db other social whole
    exact storyInauthenticity_congr cfg social whole
  · intro amplification copy db member edges origins outside plain more before earlier after later
    exact storyInauthenticity_addMember_le amplification copy outside plain more earlier later

/-- A wire report of the Story `1`. -/
def wire (id : Uuid) : ItemRow where
  item := { id, source := "wire", sourceClass := .mainstream, tsObserved := ⟨0, 0⟩,
            text := "the bridge is closed" }
  embedding := none
  storyId := some 1

/-- Five posts of different authors, ten minutes apart, and a wire report. -/
def reportedPosts : Tables where
  clock := 0
  stories := [{ id := 1, firstSeen := 0, lastSeen := 0, entitySet := ∅, sourceSet := ∅,
                independentOrigins := 6, centroid := none }]
  items := [post 1 "a" 0, post 2 "b" 600000000, post 3 "c" 1200000000, post 4 "d" 1800000000,
            post 5 "e" 2400000000, wire 6]

/-- The reprint is a copy of the report and no origin of its own. -/
def reprinted : Tables := reportedPosts.addMember 1 (wire 7) [⟨1, 7, 6, .copy, 0⟩] 6

theorem reprint_apart : ∀ row ∈ [(⟨1, 7, 6, .copy, 0⟩ : EdgeRow)], row.storyId = 1 →
    ¬ reportedPosts.Inner 1 row := by decide

theorem reprint_raises : SameSocial 1 reportedPosts reprinted ∧
    storyInauthenticity {} reportedPosts 1 = some 0 ∧
      storyInauthenticity {} reprinted 1 = some (3 / 50) := by
  refine ⟨sameSocial_addMember ?_ reprint_apart, ?_, ?_⟩
  · decide
  · decide +kernel
  · decide +kernel

theorem judges_posts :
    storyInauthenticity {} reportedPosts 1 =
      storyInauthenticity {} (reportedPosts.addMember 1 (wire 7) [] 6) 1 ∧
    ∀ before ∈ storyInauthenticity {} reportedPosts 1,
      ∀ after ∈ storyInauthenticity {} (reportedPosts.addMember 1 (wire 7) [] 7) 1,
        after ≤ before := by
  constructor
  · apply (judges_social_part {} 1).1
    · exact sameSocial_addMember (by decide) (by decide)
    · exact ⟨by decide, by decide⟩
  · apply (judges_social_part {} 1).2
    · decide +kernel
    · decide +kernel
    · decide
    · decide
    · decide

end NewsAggregator.Score
