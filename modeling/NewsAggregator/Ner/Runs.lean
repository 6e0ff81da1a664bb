import NewsAggregator.Foundation.FirstWins
import NewsAggregator.Foundation.Segments
import NewsAggregator.Ner.OnnxNer

/-! Decoding extracts the labelled spans: the entities of the maximal runs of words. -/

namespace NewsAggregator.Ner

open Foundation Segments

/-- `B-t` and `I-t`. -/
def readDashed (label : String) : Mark String :=
  match label.toList with
  | 'B' :: '-' :: tag => .starts (String.ofList tag)
  | 'I' :: '-' :: tag => .follows (String.ofList tag)
  | _ => .outside

/-- `B-t` and `I-t`, where the letter alone has the empty type. -/
def readLabel (label : String) : Mark String :=
  match label.toList with
  | ['B'] => .starts ""
  | ['I'] => .follows ""
  | _ => readDashed label

/-- The labels of the words; a missing one is `O`. -/
def marksBy (reading : String → Mark String) (wordLabel : ℕ → Option String) (wid : ℕ) :
    Mark String :=
  reading ((wordLabel wid).getD "O")

/-- The entity of a run of words, unless its text is empty. -/
def runEntity (py : Python) (text : String) (wordSpans : List (ℕ × ℕ)) (run : Segment String) :
    Option Entity :=
  let start := (wordSpans.getD run.first (0, 0)).1
  let stop := (wordSpans.getD run.last (0, 0)).2
  let entity := spanEntity py text start stop run.tag
  if entity.text = "" then none else some entity

/-- The entities of the maximal runs, in order of first appearance and without repeats. -/
def Extracts (reading : String → Mark String) (py : Python) (text : String)
    (wordSpans : List (ℕ × ℕ)) (wordLabel : ℕ → Option String) (entities : List Entity) : Prop :=
  ∃ runs : List (Segment String),
    runs.Pairwise (fun first second => first.last < second.first) ∧
      (∀ run, run ∈ runs ↔ Maximal (marksBy reading wordLabel) wordSpans.length run) ∧
      entities = (runs.filterMap (runEntity py text wordSpans)).eraseDups

theorem partition_eq (label : String) : partition label =
    (String.ofList (label.toList.takeWhile (· ≠ '-')),
      String.ofList (label.toList.dropWhile (· ≠ '-')).tail) := by
  rw [partition, List.span_eq_takeWhile_dropWhile]

/-- A prefix of one letter is the whole label, or stands before the first dash. -/
theorem toList_of_partition {label : String} {letter : Char}
    (head : (partition label).1 = String.singleton letter) :
    label.toList = [letter] ∨ ∃ tag, label.toList = letter :: '-' :: tag := by
  rw [partition_eq, ← String.toList_inj, String.toList_ofList, String.toList_singleton] at head
  cases whole : label.toList with
  | nil => simp [whole] at head
  | cons c rest =>
    rw [whole, List.takeWhile_cons] at head
    split at head
    · obtain ⟨rfl, none⟩ := List.cons.inj head
      cases rest with
      | nil => exact .inl rfl
      | cons next tag =>
        have dash : next = '-' := by simpa [List.takeWhile_cons] using none
        exact .inr ⟨tag, by rw [dash]⟩
    · cases head

theorem partition_letter {label : String} {letter : Char} (different : letter ≠ '-')
    (alone : label.toList = [letter]) : partition label = (String.singleton letter, "") := by
  rw [partition_eq, alone]
  simp [different]

theorem partition_dashed {label : String} {letter : Char} {tag : List Char}
    (different : letter ≠ '-') (dashed : label.toList = letter :: '-' :: tag) :
    partition label = (String.singleton letter, String.ofList tag) := by
  rw [partition_eq, dashed]
  simp [different]

/-- The prefix and the tag of a label are what it marks. -/
theorem readLabel_eq (label : String) :
    readLabel label = if (partition label).1 = "B" then .starts (partition label).2
      else if (partition label).1 = "I" then .follows (partition label).2 else .outside := by
  unfold readLabel readDashed
  split
  next alone => simp [partition_letter (by decide) alone]
  next alone => simp [partition_letter (by decide) alone]
  next notB notI =>
    split
    next tag dashed => simp [partition_dashed (by decide) dashed]
    next tag dashed => simp [partition_dashed (by decide) dashed]
    next notDashedB notDashedI =>
      rw [if_neg, if_neg]
      · intro head
        rcases @toList_of_partition label 'I' head with alone | ⟨tag, dashed⟩
        · exact notI alone
        · exact notDashedI tag dashed
      · intro head
        rcases @toList_of_partition label 'B' head with alone | ⟨tag, dashed⟩
        · exact notB alone
        · exact notDashedB tag dashed

variable {py : Python} {text : String} {wordSpans : List (ℕ × ℕ)} {wordLabel : ℕ → Option String}

theorem geo_of_runEntity {run : Segment String} {entity : Entity}
    (made : runEntity py text wordSpans run = some entity) : entity.geo = none := by
  unfold runEntity at made
  dsimp only at made
  split at made
  · cases made
  · obtain rfl := Option.some.inj made
    rfl

theorem eq_of_key {first second : Entity} (same : first.key = second.key)
    (left : first.geo = none) (right : second.geo = none) : first = second := by
  obtain ⟨firstText, firstType, firstGeo, _⟩ := first
  obtain ⟨secondText, secondType, secondGeo, _⟩ := second
  obtain ⟨rfl, rfl⟩ := Prod.mk.inj same
  subst left
  subst right
  rfl

/-- The variables of the decoder hold the runs that are over and the open one. -/
structure Decodes (py : Python) (text : String) (wordSpans : List (ℕ × ℕ)) (state : Decoder)
    (growth : Growth String) : Prop where
  entities : state.entities = (growth.1.filterMap (runEntity py text wordSpans)).eraseDups
  seen : ∀ key, key ∈ state.seen ↔ ∃ entity ∈ state.entities, entity.key = key
  curType : state.curType = growth.2.map Segment.tag
  span : ∀ run ∈ growth.2, state.curStart = (wordSpans.getD run.first (0, 0)).1 ∧
    state.curEnd = (wordSpans.getD run.last (0, 0)).2

theorem decodes_start : Decodes py text wordSpans {} ([], none) :=
  ⟨rfl, by simp, rfl, by simp⟩

/-- The set `seen` tells whether an entity is listed. -/
theorem Decodes.key_mem_iff {state : Decoder} {growth : Growth String}
    (decodes : Decodes py text wordSpans state growth) {run : Segment String} {entity : Entity}
    (made : runEntity py text wordSpans run = some entity) :
    entity.key ∈ state.seen ↔ entity ∈ growth.1.filterMap (runEntity py text wordSpans) := by
  rw [decodes.seen, decodes.entities]
  constructor
  · intro known
    obtain ⟨other, listed, same⟩ := known
    rw [List.mem_eraseDups] at listed
    obtain ⟨source, _, origin⟩ := List.mem_filterMap.mp listed
    rwa [eq_of_key same (geo_of_runEntity origin) (geo_of_runEntity made)] at listed
  · intro listed
    exact ⟨entity, List.mem_eraseDups.mpr listed, rfl⟩

theorem Decodes.listed_none {state : Decoder} {growth : Growth String}
    (decodes : Decodes py text wordSpans state growth) {run : Segment String}
    (made : runEntity py text wordSpans run = none) :
    state.entities = ((growth.1 ++ [run]).filterMap (runEntity py text wordSpans)).eraseDups := by
  rw [List.filterMap_append, List.filterMap_cons_none made, List.filterMap_nil, List.append_nil]
  exact decodes.entities

theorem Decodes.listed_some {state : Decoder} {growth : Growth String}
    (decodes : Decodes py text wordSpans state growth) {run : Segment String} {entity : Entity}
    (made : runEntity py text wordSpans run = some entity) :
    (if entity.key ∈ state.seen then state.entities else state.entities ++ [entity]) =
      ((growth.1 ++ [run]).filterMap (runEntity py text wordSpans)).eraseDups := by
  rw [List.filterMap_append, List.filterMap_cons_some made, List.filterMap_nil, eraseDups_concat,
    ← decodes.entities]
  exact if_congr (decodes.key_mem_iff made) rfl rfl

/-- `flush` ends the open run: its entity is appended unless it is empty or a repeat. -/
theorem Decodes.flush {state : Decoder} {growth : Growth String}
    (decodes : Decodes py text wordSpans state growth) :
    Decodes py text wordSpans (state.flush py text) (growth.all, none) := by
  cases opened : growth.2 with
  | none =>
    have closed : state.curType = none := by rw [decodes.curType, opened]; rfl
    have all : growth.all = growth.1 := by simp [Growth.all, opened]
    rw [Decoder.flush, closed, all]
    exact ⟨decodes.entities, decodes.seen, closed, by simp⟩
  | some run =>
    obtain ⟨start, stop⟩ := decodes.span run opened
    have typed : state.curType = some run.tag := by rw [decodes.curType, opened]; rfl
    have all : growth.all = growth.1 ++ [run] := by simp [Growth.all, opened]
    have made : runEntity py text wordSpans run =
        if (spanEntity py text state.curStart state.curEnd run.tag).text = "" then none
        else some (spanEntity py text state.curStart state.curEnd run.tag) := by
      rw [start, stop]
      rfl
    rw [Decoder.flush, typed, all]
    dsimp only
    generalize spanEntity py text state.curStart state.curEnd run.tag = entity at made
    by_cases empty : entity.text = ""
    · rw [if_pos empty] at made
      rw [if_neg (by simp [empty])]
      exact ⟨decodes.listed_none made, decodes.seen, rfl, by simp⟩
    · rw [if_neg empty] at made
      have listed := decodes.listed_some made
      by_cases known : entity.key ∈ state.seen
      · rw [if_pos known] at listed
        rw [if_neg (by simp [known])]
        exact ⟨listed, decodes.seen, rfl, by simp⟩
      · rw [if_neg known] at listed
        rw [if_pos ⟨empty, known⟩]
        refine ⟨listed, ?_, rfl, by simp⟩
        intro key
        simp [decodes.seen, or_and_right, exists_or, eq_comm, or_comm]

/-- A turn of the loop grows the runs by one word. -/
theorem Decodes.word {state : Decoder} {growth : Growth String}
    (decodes : Decodes py text wordSpans state growth) (wid : ℕ) :
    Decodes py text wordSpans (state.word py text wordSpans wordLabel wid)
      (grow (marksBy readLabel wordLabel) growth wid) := by
  have flushed := decodes.flush
  have opened (tag : String) : Decodes py text wordSpans
      { state.flush py text with
        curType := some tag
        curStart := (wordSpans.getD wid (0, 0)).1
        curEnd := (wordSpans.getD wid (0, 0)).2 } (growth.all, some ⟨wid, wid, tag⟩) := by
    refine ⟨flushed.entities, flushed.seen, rfl, ?_⟩
    intro run held
    obtain rfl := Option.some.inj held
    exact ⟨rfl, rfl⟩
  unfold Decoder.word grow marksBy
  dsimp only
  rw [readLabel_eq]
  generalize partition ((wordLabel wid).getD "O") = parts
  obtain ⟨head, tag⟩ := parts
  dsimp only
  by_cases begins : head = "B"
  · rw [if_pos (.inl begins), if_pos begins]
    exact opened tag
  · rw [if_neg begins]
    by_cases inside : head = "I"
    · rw [if_pos inside]
      cases current : growth.2 with
      | none =>
        have typed : state.curType ≠ some tag := by simp [decodes.curType, current]
        rw [if_pos (.inr ⟨inside, typed⟩)]
        exact opened tag
      | some run =>
        have typed : state.curType = some run.tag := by rw [decodes.curType, current]; rfl
        dsimp only
        by_cases same : tag = run.tag
        · rw [if_neg (by simp [begins, typed, same]), if_pos ⟨inside, by rw [typed, same]⟩,
            if_pos same]
          refine ⟨decodes.entities, decodes.seen, typed, ?_⟩
          intro longer held
          obtain rfl := Option.some.inj held
          exact ⟨(decodes.span run current).1, rfl⟩
        · have different : state.curType ≠ some tag := by simpa [typed, eq_comm] using same
          rw [if_pos (.inr ⟨inside, different⟩), if_neg same]
          exact opened tag
    · rw [if_neg inside, if_neg (by simp [begins, inside]), if_neg (by simp [inside])]
      exact flushed

theorem decodes_words (py : Python) (text : String) (wordSpans : List (ℕ × ℕ))
    (wordLabel : ℕ → Option String) (count : ℕ) :
    Decodes py text wordSpans
      ((List.range count).foldl (Decoder.word py text wordSpans wordLabel) {})
      (growthOf (marksBy readLabel wordLabel) count) := by
  induction count with
  | zero => exact decodes_start
  | succ count ih =>
    rw [growthOf, List.range_succ, List.foldl_concat, List.foldl_concat]
    exact ih.word count

/-- For every text, spans and labels, decoding returns the entities of the maximal runs. -/
theorem decodeBio_extracts (py : Python) (text : String) (wordSpans : List (ℕ × ℕ))
    (wordLabel : ℕ → Option String) :
    Extracts readLabel py text wordSpans wordLabel (decodeBio py text wordSpans wordLabel) := by
  have grown := grown_growthOf (marksBy readLabel wordLabel) wordSpans.length
  have decoded := (decodes_words py text wordSpans wordLabel wordSpans.length).flush
  exact ⟨_, grown.sorted, grown.listed, decoded.entities⟩

/-- The bare letter is no `B-t`, and still opens a run. -/
theorem bare_letter_extracted :
    ¬ Extracts readDashed .plain "Ann" [(0, 3)] (fun _ => some "B")
      (decodeBio .plain "Ann" [(0, 3)] fun _ => some "B") := by
  intro extracts
  obtain ⟨runs, _, maximal, decoded⟩ := extracts
  have none : runs = [] := by
    apply List.eq_nil_iff_forall_not_mem.mpr
    intro run member
    have letters : "B".toList = ['B'] := by decide
    have outside (wid : ℕ) : marksBy readDashed (fun _ => some "B") wid = .outside := by
      rw [marksBy, Option.getD_some, readDashed, letters]
      rfl
    have opens := ((maximal run).mp member).opens
    simp [Opens, outside] at opens
  rw [none] at decoded
  exact absurd decoded (by decide)

end NewsAggregator.Ner
