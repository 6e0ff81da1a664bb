import Mathlib.Algebra.Order.Ring.Unbundled.Rat
import NewsAggregator.Ner.Runs
import NewsAggregator.Tokenize.Spans

/-! From a text to its entities: the batch the model is fed, the class of each token, and the
label of a word from its first piece. -/

namespace NewsAggregator.Tokenize

open Foundation

/-- `_BatchArrays`. -/
structure BatchArrays where
  inputIds : List (List ℤ)
  attentionMask : List (List ℤ)
  tokenTypeIds : List (List ℤ)

/-- `feed`. -/
def BatchArrays.feed (batch : BatchArrays) (inputNames : List String) :
    List (String × List (List ℤ)) :=
  [("input_ids", batch.inputIds), ("attention_mask", batch.attentionMask),
    ("token_type_ids", batch.tokenTypeIds)].filter fun input => input.1 ∈ inputNames

/-- A row of a full array with its front overwritten. -/
def padded (width : ℕ) (fill : ℤ) (front : List ℤ) : List ℤ :=
  front ++ List.replicate (width - front.length) fill

theorem length_padded (width : ℕ) (fill : ℤ) (front : List ℤ) :
    front.length ≤ (padded width fill front).length := by
  rw [padded, List.length_append]
  exact Nat.le_add_right _ _

/-- `encode_batch`. -/
def WordPieceTokenizer.encodeBatch (db : CharacterData) (tok : WordPieceTokenizer)
    (texts : List CodePoints) : List Encoding × BatchArrays :=
  let encs := texts.map (tok.encode db)
  let width := (encs.map fun enc => enc.ids.length).max?.getD 1
  (encs, {
    inputIds := encs.map fun enc => padded width tok.padId enc.ids
    attentionMask := encs.map fun enc => padded width 0 (List.replicate enc.ids.length 1)
    tokenTypeIds := encs.map fun _ => List.replicate width 0 })

namespace WordPieceTokenizer

/-- The words before the first one whose pieces do not fit between the specials any more. -/
structure Fitting (tok : WordPieceTokenizer) (words kept : List Word) : Prop where
  initial : kept <+: words
  fits : ((tok.pieceIds kept).length : ℤ) + 2 ≤ tok.maxLen
  full : ∀ word ∈ words[kept.length]?, tok.maxLen < ((tok.pieceIds (kept ++ [word])).length : ℤ) + 2

/-- Where the first piece of a word stands, if it has one. -/
def firstPiece (tok : WordPieceTokenizer) (kept : List Word) (wid : ℕ) : Option ℕ :=
  kept[wid]?.bind fun word =>
    if tok.wordpiece word.text = [] then none else some ((tok.pieceIds (kept.take wid)).length + 1)

variable {tok : WordPieceTokenizer}

/-- The loop stops only at a word that does not fit. -/
theorem encodeFrom_full (tok : WordPieceTokenizer) (words : List Word) (index : ℕ)
    (enc : Encoding) :
    ∃ kept, kept <+: words ∧ tok.encodeFrom index words enc = tok.extend index kept enc ∧
      ∀ word ∈ words[kept.length]?, tok.maxLen - 2 <
        ((tok.extend index kept enc).ids.length : ℤ) - 1 + (tok.wordpiece word.text).length := by
  induction words generalizing index enc with
  | nil => exact ⟨[], List.prefix_refl [], (extend_nil enc).symm, nofun⟩
  | cons word rest ih =>
    rw [encodeFrom]
    split
    · rename_i beyond
      refine ⟨[], List.nil_prefix, (extend_nil enc).symm, fun next here => ?_⟩
      obtain rfl : word = next := by simpa using here
      rwa [extend_nil]
    · obtain ⟨kept, initial, same, full⟩ := ih (index + 1) (tok.extend index [word] enc)
      rw [extend_cons] at same full
      refine ⟨word :: kept, List.cons_prefix_cons.mpr ⟨rfl, initial⟩, ?_, full⟩
      rw [← same]
      simp [extend, pieceIds, labels, Word.span]

theorem encode_fitting (db : CharacterData) (tok : WordPieceTokenizer) (text : CodePoints)
    (room : 2 ≤ tok.maxLen) :
    ∃ kept, tok.Fitting (tok.basicTokens db text) kept ∧ tok.encode db text = {
      ids := tok.clsId :: (tok.pieceIds kept ++ [tok.sepId])
      wordIds := none :: (tok.labels 0 kept ++ [none])
      wordSpans := kept.map Word.span } := by
  obtain ⟨kept, initial, same, fits⟩ := encode_eq db tok text room
  obtain ⟨other, first, extended, full⟩ := encodeFrom_full tok (tok.basicTokens db text) 0
    ⟨[tok.clsId], [none], []⟩
  have spans : other.map Word.span = kept.map Word.span := by
    have equal := congrArg Encoding.wordSpans same
    rwa [encode, extended] at equal
  have long : other.length = kept.length := by
    simpa using congrArg List.length spans
  obtain rfl : other = kept :=
    (List.prefix_of_prefix_length_le first initial long.le).eq_of_length long
  refine ⟨other, ⟨initial, fits, fun word here => ?_⟩, same⟩
  have beyond := full word here
  simp only [extend, pieceIds, List.flatMap_append, List.length_append, List.length_singleton,
    List.flatMap_cons, List.flatMap_nil, List.append_nil] at beyond ⊢
  push_cast at beyond ⊢
  omega

theorem idxOf?_front {α : Type*} [BEq α] [LawfulBEq α] {front : List α} {a : α}
    (absent : a ∉ front) (back : List α) :
    (front ++ a :: back).idxOf? a = some front.length := by
  induction front with
  | nil => simp [List.idxOf?_cons]
  | cons head rest ih =>
    obtain ⟨different, absent⟩ := not_or.mp (List.mem_cons.not.mp absent)
    rw [List.cons_append, List.idxOf?_cons, if_neg (by simpa using Ne.symm different), ih absent]
    rfl

/-- A word's index stands first where its first piece does. -/
theorem idxOf_word (tok : WordPieceTokenizer) (kept : List Word) (wid : ℕ) :
    (none :: (tok.labels 0 kept ++ [none])).idxOf? (some wid) = tok.firstPiece kept wid := by
  unfold firstPiece
  cases found : kept[wid]? with
  | none =>
    rw [Option.bind_none, List.idxOf?_eq_none_iff]
    have outside : some wid ∉ tok.labels 0 kept :=
      not_mem_labels (.inr (by simpa using found))
    simpa using outside
  | some word =>
    obtain ⟨before, after, rfl, rfl⟩ := split_of_prefix (List.prefix_refl kept)
      (List.getElem?_eq_some_iff.mp found).1 found
    have early : some before.length ∉ tok.labels 0 before := not_mem_labels (.inr (by simp))
    have late : some before.length ∉ tok.labels (before.length + 1) after :=
      not_mem_labels (.inl (by omega))
    rw [Option.bind_some, List.take_left, labels_append, labels, Nat.zero_add]
    cases pieces : tok.wordpiece word.text with
    | nil =>
      rw [if_pos rfl, List.idxOf?_eq_none_iff]
      simpa using ⟨early, late⟩
    | cons piece rest =>
      have front : some before.length ∉ none :: tok.labels 0 before := by simpa using early
      have place := idxOf?_front front (List.replicate rest.length (some before.length) ++
        (tok.labels (before.length + 1) after ++ [none]))
      rw [List.length_cons, length_labels] at place
      rw [if_neg (List.cons_ne_nil piece rest), ← place]
      simp [List.replicate_succ]

theorem encodeBatch_fst (db : CharacterData) (tok : WordPieceTokenizer) (text : CodePoints) :
    (tok.encodeBatch db [text]).1 = [tok.encode db text] := rfl

/-- The row of a text has a place for each of its pieces. -/
theorem encodeBatch_inputIds (db : CharacterData) (tok : WordPieceTokenizer) (text : CodePoints) :
    ∃ row, (tok.encodeBatch db [text]).2.inputIds = [row] ∧
      (tok.encode db text).ids.length ≤ row.length := by
  exact ⟨_, rfl, length_padded _ _ _⟩

end WordPieceTokenizer

end NewsAggregator.Tokenize

namespace NewsAggregator.Ner

open Foundation Tokenize WordPieceTokenizer

variable {K : Type} [LinearOrder K]

/-- The classifier: the tokenizer, the names of its classes, the inputs of its graph, and the
scores it answers, by text, position and class. -/
structure OnnxNer (K : Type) where
  tok : WordPieceTokenizer
  labels : List String
  inputNames : List String
  session : List (String × List (List ℤ)) → List (List (List K))

/-- `argmax`: the first of the best classes. -/
def argmax (scores : List K) : ℕ := scores.findIdx fun score => ∀ other ∈ scores, other ≤ score

/-- The loop over the positions from one on; `none` where the model answered too few. -/
def wordLabels (labels : List String) (pred : List ℕ) :
    ℕ → List (Option ℕ) → List (ℕ × String) → Option (List (ℕ × String))
  | _, [], wordLabel => some wordLabel
  | pos, none :: rest, wordLabel => wordLabels labels pred (pos + 1) rest wordLabel
  | pos, some wid :: rest, wordLabel =>
    if (wordLabel.lookup wid).isSome then wordLabels labels pred (pos + 1) rest wordLabel
    else
      match pred[pos]? with
      | none => none
      | some cid =>
        wordLabels labels pred (pos + 1) rest (wordLabel ++ [(wid, labels.getD cid "O")])

/-- The entities of a text by what the model says of its stretch. -/
def OnnxNer.extractFrom (db : CharacterData) (py : Python) (ner : OnnxNer K) (text : String)
    (stretch : CodePoints) : Option (List Entity) :=
  let (encs, batch) := ner.tok.encodeBatch db [stretch]
  match encs with
  | [] => none
  | enc :: _ => do
    let logits ← (ner.session (batch.feed ner.inputNames)).head?
    -- an array without classes has no best one
    guard ([] ∉ logits)
    let wordLabel ← wordLabels ner.labels (logits.map argmax) 0 enc.wordIds []
    return decodeBio py text enc.wordSpans fun wid => wordLabel.lookup wid

/-- `extract`; `none` where it raises. -/
def OnnxNer.extract (db : CharacterData) (py : Python) (ner : OnnxNer K) (text : String) :
    Option (List Entity) :=
  if py.strip text = "" then some []
  else ner.extractFrom db py text (points (slice text 0 maxTextLen))

/-- The model answers the scores of some classes for every position of every text. -/
def Shaped (ner : OnnxNer K) : Prop :=
  ∀ batch : BatchArrays, List.Forall₂
    (fun ids logits => ids.length ≤ logits.length ∧ [] ∉ logits)
    batch.inputIds (ner.session (batch.feed ner.inputNames))

/-- What the model says of the first piece of a word. -/
def OnnxNer.firstLabel (ner : OnnxNer K) (logits : List (List K)) (kept : List Word) (wid : ℕ) :
    Option String :=
  (ner.tok.firstPiece kept wid).map fun pos => ner.labels.getD (argmax (logits.getD pos [])) "O"

section Labels

/-- The label at the first position of a word, where the entries stand from `pos` on. -/
def labelFrom (labels : List String) (pred : List ℕ) (pos : ℕ) (wordIds : List (Option ℕ))
    (wid : ℕ) : Option String :=
  (wordIds.idxOf? (some wid)).map fun later => labels.getD (pred.getD (pos + later) 0) "O"

variable {labels : List String} {pred : List ℕ} {pos wid : ℕ} {rest : List (Option ℕ)}

theorem labelFrom_cons_self : labelFrom labels pred pos (some wid :: rest) wid =
    some (labels.getD (pred.getD pos 0) "O") := by
  simp [labelFrom, List.idxOf?_cons]

theorem labelFrom_cons_ne {entry : Option ℕ} (different : entry ≠ some wid) :
    labelFrom labels pred pos (entry :: rest) wid = labelFrom labels pred (pos + 1) rest wid := by
  rw [labelFrom, List.idxOf?_cons, if_neg (by simpa using different), Option.map_map, labelFrom]
  congr 1
  funext later
  rw [Function.comp_apply, Nat.add_right_comm, Nat.add_assoc]

/-- The loop takes the class at the first position of each word. -/
theorem wordLabels_eq (labels : List String) (pred : List ℕ) (wordIds : List (Option ℕ)) (pos : ℕ)
    (wordLabel : List (ℕ × String))
    (enough : pos + wordIds.length ≤ pred.length) :
    ∃ final, wordLabels labels pred pos wordIds wordLabel = some final ∧ ∀ wid,
      final.lookup wid = (wordLabel.lookup wid).or (labelFrom labels pred pos wordIds wid) := by
  induction wordIds generalizing pos wordLabel with
  | nil => exact ⟨wordLabel, rfl, by simp [labelFrom]⟩
  | cons entry rest ih =>
    rw [List.length_cons] at enough
    have fewer : pos + 1 + rest.length ≤ pred.length := by omega
    cases entry with
    | none =>
      obtain ⟨final, done, lookup⟩ := ih (pos + 1) wordLabel fewer
      refine ⟨final, done, fun other => ?_⟩
      rw [lookup, labelFrom_cons_ne (Option.some_ne_none other).symm]
    | some wid =>
      rw [wordLabels]
      split
      · rename_i known
        obtain ⟨label, held⟩ := Option.isSome_iff_exists.mp known
        obtain ⟨final, done, lookup⟩ := ih (pos + 1) wordLabel fewer
        refine ⟨final, done, fun other => ?_⟩
        rw [lookup]
        by_cases same : wid = other
        · subst same
          rw [held, Option.some_or, Option.some_or]
        · rw [labelFrom_cons_ne (Option.some_injective _ |>.ne same)]
      · rename_i fresh
        have here : pred[pos]? = some (pred.getD pos 0) := by
          rw [List.getD_eq_getElem?_getD, List.getElem?_eq_getElem (by omega), Option.getD_some]
        rw [here]
        obtain ⟨final, done, lookup⟩ :=
          ih (pos + 1) (wordLabel ++ [(wid, labels.getD (pred.getD pos 0) "O")]) fewer
        refine ⟨final, done, fun other => ?_⟩
        rw [lookup, List.lookup_append, lookup_entry, List.lookup_nil, Option.or_none]
        by_cases same : wid = other
        · subst same
          rw [Option.not_isSome_iff_eq_none.mp fresh, labelFrom_cons_self]
          simp
        · rw [if_neg (by simpa using Ne.symm same), Option.or_none,
            labelFrom_cons_ne (Option.some_injective _ |>.ne same)]

end Labels

section Extract

variable {db : CharacterData} {py : Python} {text : String} {kept : List Word}
  {wordLabel : ℕ → Option String} {entities : List Entity}

/-- An entity is the text of whole words. -/
theorem words_of_extracts {tok : WordPieceTokenizer} {stretch : CodePoints}
    (initial : kept <+: tok.basicTokens db stretch)
    (extracts : Extracts readLabel py text (kept.map Word.span) wordLabel entities) :
    ∀ entity ∈ entities, entity.text ≠ "" ∧ ∃ first ∈ kept, ∃ last ∈ kept,
      first.start < last.stop ∧ last.stop ≤ stretch.length ∧
        entity.text = cutText (py.strip (slice text first.start last.stop)) := by
  obtain ⟨runs, _, listed, rfl⟩ := extracts
  obtain ⟨apart, placed⟩ := laid_basicTokens db tok stretch
  have ordered := apart.sublist initial.sublist
  intro entity member
  obtain ⟨run, among, made⟩ := List.mem_filterMap.mp (List.mem_eraseDups.mp member)
  obtain ⟨order, inside, _⟩ := (listed run).mp among
  rw [List.length_map] at inside
  have bounds (wid : ℕ) (here : wid < kept.length) := placed kept[wid]
    (initial.subset (List.getElem_mem here))
  have span (wid : ℕ) (here : wid < kept.length) :
      (kept.map Word.span).getD wid (0, 0) = kept[wid].span := by
    simp [List.getD_eq_getElem?_getD, here]
  unfold runEntity at made
  rw [span _ (order.trans_lt inside), span _ inside] at made
  dsimp only at made
  split at made
  · cases made
  · rename_i some
    obtain rfl := Option.some.inj made
    refine ⟨some, _, List.getElem_mem (order.trans_lt inside), _, List.getElem_mem inside, ?_,
      (bounds _ inside).2.1, rfl⟩
    rcases order.lt_or_eq with before | same
    · have between := List.pairwise_iff_getElem.mp ordered _ _ (order.trans_lt inside) inside before
      have firstBounds := (bounds _ (order.trans_lt inside)).1
      have lastBounds := (bounds _ inside).1
      omega
    · simp only [same]
      exact (bounds _ inside).1

theorem getD_argmax (logits : List (List K)) (pos : ℕ) :
    (logits.map argmax).getD pos 0 = argmax (logits.getD pos []) := by
  rw [List.getD_eq_getElem?_getD, List.getD_eq_getElem?_getD, List.getElem?_map]
  cases logits[pos]? <;> rfl

theorem extractFrom_eq (db : CharacterData) (py : Python) (ner : OnnxNer K)
    (room : 2 ≤ ner.tok.maxLen) (shaped : Shaped ner) (text : String) (stretch : CodePoints) :
    ∃ kept logits, ner.tok.Fitting (ner.tok.basicTokens db stretch) kept ∧
      logits ∈ (ner.session ((ner.tok.encodeBatch db [stretch]).2.feed ner.inputNames)).head? ∧
      ner.extractFrom db py text stretch =
        some (decodeBio py text (kept.map Word.span) (ner.firstLabel logits kept)) := by
  obtain ⟨kept, fitting, encoded⟩ := encode_fitting db ner.tok stretch room
  obtain ⟨row, rows, wide⟩ := encodeBatch_inputIds db ner.tok stretch
  have answers := shaped (ner.tok.encodeBatch db [stretch]).2
  rw [rows] at answers
  cases answered : ner.session ((ner.tok.encodeBatch db [stretch]).2.feed ner.inputNames) with
  | nil =>
    rw [answered] at answers
    cases answers
  | cons logits rest =>
    rw [answered] at answers
    obtain ⟨long, classes⟩ := (List.forall₂_cons.mp answers).1
    have enough := wide.trans long
    rw [encoded] at enough
    obtain ⟨wordLabel, done, lookup⟩ := wordLabels_eq ner.labels (logits.map argmax)
      (none :: (ner.tok.labels 0 kept ++ [none])) 0 [] (by simpa [length_labels] using enough)
    have labelled : (fun wid => wordLabel.lookup wid) = ner.firstLabel logits kept := by
      funext wid
      rw [lookup, labelFrom, idxOf_word, OnnxNer.firstLabel, List.lookup_nil, Option.none_or]
      congr 1
      funext pos
      rw [Nat.zero_add, getD_argmax]
    refine ⟨kept, logits, fitting, rfl, ?_⟩
    simp only [OnnxNer.extractFrom, encodeBatch_fst, answered, encoded, List.head?_cons,
      Option.bind_eq_bind, Option.bind_some, guard, if_pos classes, done, labelled,
      Option.pure_def]

/-- The entities of a text are those of the maximal runs of its words, as far as their pieces
fit, by what the model says of the first piece of each; nothing else it says counts, and it
cannot make `extract` raise. A blank text has none. -/
theorem extract_reads_first_pieces (db : CharacterData) (py : Python) (ner : OnnxNer K)
    (room : 2 ≤ ner.tok.maxLen) (shaped : Shaped ner) (text : String) :
    (py.strip text = "" → ner.extract db py text = some []) ∧
    (py.strip text ≠ "" → ∃ kept logits entities,
      ner.tok.Fitting (ner.tok.basicTokens db (points (slice text 0 maxTextLen))) kept ∧
      logits ∈ (ner.session ((ner.tok.encodeBatch db
        [points (slice text 0 maxTextLen)]).2.feed ner.inputNames)).head? ∧
      ner.extract db py text = some entities ∧
      Extracts readLabel py text (kept.map Word.span) (ner.firstLabel logits kept) entities ∧
      ∀ entity ∈ entities, entity.text ≠ "" ∧ ∃ first ∈ kept, ∃ last ∈ kept,
        first.start < last.stop ∧ last.stop ≤ maxTextLen ∧
          entity.text = cutText (py.strip (slice text first.start last.stop))) := by
  refine ⟨fun blank => by rw [OnnxNer.extract, if_pos blank], fun spoken => ?_⟩
  have short : (points (slice text 0 maxTextLen)).length ≤ maxTextLen := by
    rw [points, List.length_map, slice, String.toList_ofList]
    exact List.length_take_le _ _
  generalize sliced : points (slice text 0 maxTextLen) = stretch at short ⊢
  obtain ⟨kept, logits, fitting, answered, made⟩ := extractFrom_eq db py ner room shaped
    text stretch
  have grown := Segments.grown_growthOf (marksBy readLabel (ner.firstLabel logits kept))
    (kept.map Word.span).length
  have decoded := (decodes_words py text (kept.map Word.span) (ner.firstLabel logits kept)
    (kept.map Word.span).length).flush
  have extracts : Extracts readLabel py text (kept.map Word.span) (ner.firstLabel logits kept)
      (decodeBio py text (kept.map Word.span) (ner.firstLabel logits kept)) :=
    ⟨_, grown.sorted, grown.listed, decoded.entities⟩
  refine ⟨kept, logits, _, fitting, answered, ?_, extracts, fun entity member => ?_⟩
  · rw [OnnxNer.extract, if_neg spoken, sliced]
    exact made
  · obtain ⟨some, first, early, last, late, before, bound, same⟩ :=
      words_of_extracts fitting.initial extracts entity member
    exact ⟨some, first, early, last, late, before, bound.trans short, same⟩

end Extract

/-- A model that takes the piece `hello` for a person. -/
def greeter : OnnxNer ℚ where
  tok := greetingTokenizer
  labels := ["O", "B-PER"]
  inputNames := ["input_ids"]
  session feed := ((feed.lookup "input_ids").getD []).map fun ids =>
    ids.map fun id => if id = 4 then [0, 1] else [1, 0]

theorem shaped_greeter : Shaped greeter := by
  intro batch
  have named : batch.feed greeter.inputNames = [("input_ids", batch.inputIds)] := by
    simp [BatchArrays.feed, greeter]
  rw [named]
  refine List.forall₂_map_right_iff.mpr (List.forall₂_same.mpr fun ids _ => ?_)
  refine ⟨(List.length_map _).ge, fun none => ?_⟩
  obtain ⟨id, _, scores⟩ := List.mem_map.mp none
  split at scores <;> cases scores

theorem extract_reads_first_pieces_greeter :
    ∃ entities, greeter.extract .ascii .plain "Hello, world" = some entities ∧
      ∀ entity ∈ entities, entity.text ≠ "" := by
  obtain ⟨_, _, entities, _, _, extracted, _, words⟩ :=
    (extract_reads_first_pieces .ascii .plain greeter (by decide) shaped_greeter
      "Hello, world").2 (by decide +kernel)
  exact ⟨entities, extracted, fun entity member => (words entity member).1⟩

example : (greeter.extract .ascii .plain "Hello, world").map (List.map Entity.key) =
    some [("Hello", .person)] := by decide +kernel

end NewsAggregator.Ner
