import NewsAggregator.Tokenize.Wordpiece

/-! The spans of the basic tokens and the positions of their pieces in an encoding. -/

namespace NewsAggregator.Tokenize

open Foundation

/-- A word token before it is normalized. -/
structure Piece where
  raw : CodePoints
  start : ℕ

def Piece.stop (piece : Piece) : ℕ := piece.start + piece.raw.length

/-- The scan of `_basic_tokens` without the normalization. -/
def piecesFrom (db : CharacterData) : ℕ → ℕ → CodePoints → List Piece
  | 0, _, _ => []
  | _, _, [] => []
  | turns + 1, i, ch :: rest =>
    if isSkipped db ch then piecesFrom db turns (i + 1) rest
    else if isAlone db ch then ⟨[ch], i⟩ :: piecesFrom db turns (i + 1) rest
    else
      let run := (ch :: rest).takeWhile (isWordChar db)
      ⟨run, i⟩ :: piecesFrom db turns (i + run.length) ((ch :: rest).dropWhile (isWordChar db))

section Pieces

variable {db : CharacterData} {turns i : ℕ} {text : CodePoints}

theorem piecesFrom_nil : piecesFrom db turns i [] = [] := by
  cases turns <;> rfl

/-- A turn skips a character, or takes a piece off the front. -/
theorem piecesFrom_cases (turns i : ℕ) (ch : CodePoint) (rest : CodePoints) :
    (isSkipped db ch = true ∧
        piecesFrom db (turns + 1) i (ch :: rest) = piecesFrom db turns (i + 1) rest) ∨
      ∃ raw later, raw ≠ [] ∧ ch :: rest = raw ++ later ∧
        piecesFrom db (turns + 1) i (ch :: rest) =
          ⟨raw, i⟩ :: piecesFrom db turns (i + raw.length) later := by
  rw [piecesFrom]
  cases skipped : isSkipped db ch with
  | true => exact .inl ⟨rfl, if_pos rfl⟩
  | false =>
    refine .inr ?_
    rw [if_neg Bool.false_ne_true]
    cases alone : isAlone db ch with
    | true => exact ⟨[ch], rest, List.cons_ne_nil ch [], rfl, if_pos rfl⟩
    | false =>
      have word : isWordChar db ch = true := by rw [isWordChar, skipped, alone]; rfl
      refine ⟨_, _, ?_, List.takeWhile_append_dropWhile.symm, if_neg Bool.false_ne_true⟩
      rw [List.takeWhile_cons_of_pos word]
      exact List.cons_ne_nil ch _

/-- Pieces one after the other between two places, each of them a slice of the text. -/
def Laid (text : CodePoints) : ℕ → List Piece → Prop
  | _, [] => True
  | from', piece :: rest =>
    from' ≤ piece.start ∧ piece.start < piece.stop ∧ piece.stop ≤ text.length ∧
      piece.raw = (text.drop piece.start).take (piece.stop - piece.start) ∧
      Laid text piece.stop rest

theorem Laid.weaken {pieces : List Piece} {from' earlier : ℕ} (laid : Laid text from' pieces)
    (before : earlier ≤ from') : Laid text earlier pieces := by
  cases pieces with
  | nil => trivial
  | cons piece rest => exact ⟨before.trans laid.1, laid.2⟩

theorem laid_piecesFrom {rest : CodePoints} (suffix : rest = text.drop i) :
    Laid text i (piecesFrom db turns i rest) := by
  induction turns generalizing i rest with
  | zero => trivial
  | succ turns ih =>
    cases rest with
    | nil => rw [piecesFrom_nil]; trivial
    | cons ch rest =>
      rcases piecesFrom_cases turns i ch rest with ⟨_, same⟩ | ⟨raw, later, some, split, same⟩
      · have next : rest = text.drop (i + 1) := by
          rw [← List.drop_drop, ← suffix, List.drop_one, List.tail_cons]
        rw [same]
        exact (ih next).weaken (Nat.le_succ i)
      · have next : later = text.drop (i + raw.length) := by
          rw [← List.drop_drop, ← suffix, split, List.drop_left]
        have whole : raw = (text.drop i).take raw.length := by
          rw [← suffix, split, List.take_left]
        have inside : i + raw.length ≤ text.length := by
          have counted := congrArg List.length (suffix.symm.trans split)
          rw [List.length_drop, List.length_append] at counted
          have positive := List.length_pos_iff.mpr some
          omega
        rw [same]
        refine ⟨le_rfl, Nat.lt_add_of_pos_right (List.length_pos_iff.mpr some), inside, ?_, ih next⟩
        rw [Piece.stop, Nat.add_sub_cancel_left]
        exact whole

/-- Every character that is neither white space nor control is in a piece. -/
theorem piecesFrom_covers {rest : CodePoints} (enough : rest.length ≤ turns)
    (suffix : rest = text.drop i) {k : ℕ} {c : CodePoint} (after : i ≤ k)
    (here : text[k]? = some c) (kept : isSkipped db c = false) :
    ∃ piece ∈ piecesFrom db turns i rest, piece.start ≤ k ∧ k < piece.stop := by
  have inside : k < text.length := (List.getElem?_eq_some_iff.mp here).1
  induction turns generalizing i rest with
  | zero =>
    have empty : text.length ≤ i := by
      rw [← List.drop_eq_nil_iff, ← suffix]
      exact List.length_eq_zero_iff.mp (Nat.le_zero.mp enough)
    omega
  | succ turns ih =>
    cases rest with
    | nil =>
      have empty : text.length ≤ i := List.drop_eq_nil_iff.mp suffix.symm
      omega
    | cons ch rest =>
      rcases piecesFrom_cases turns i ch rest with ⟨skipped, same⟩ | ⟨raw, later, some, split, same⟩
      · have first : text[i]? = Option.some ch := by
          rw [← List.head?_drop, ← suffix, List.head?_cons]
        have next : rest = text.drop (i + 1) := by
          rw [← List.drop_drop, ← suffix, List.drop_one, List.tail_cons]
        have other : i ≠ k := by
          rintro rfl
          rw [Option.some.inj (here.symm.trans first), skipped] at kept
          cases kept
        rw [same]
        exact ih (Nat.le_of_succ_le_succ enough) next (by omega)
      · have next : later = text.drop (i + raw.length) := by
          rw [← List.drop_drop, ← suffix, split, List.drop_left]
        have shorter : later.length ≤ turns := by
          have counted := congrArg List.length split
          rw [List.length_append] at counted
          have positive := List.length_pos_iff.mpr some
          omega
        rw [same]
        by_cases early : k < i + raw.length
        · exact ⟨⟨raw, i⟩, List.mem_cons_self, after, early⟩
        · obtain ⟨piece, member, bounds⟩ := ih shorter next (by omega)
          exact ⟨piece, List.mem_cons_of_mem _ member, bounds⟩

theorem Laid.forall {pieces : List Piece} {from' : ℕ} (laid : Laid text from' pieces) :
    ∀ piece ∈ pieces, from' ≤ piece.start ∧ piece.start < piece.stop ∧
      piece.stop ≤ text.length ∧
      piece.raw = (text.drop piece.start).take (piece.stop - piece.start) := by
  induction pieces generalizing from' with
  | nil => exact fun piece member => absurd member List.not_mem_nil
  | cons first rest ih =>
    obtain ⟨after, nonempty, inside, slice, later⟩ := laid
    intro piece member
    rcases List.mem_cons.mp member with rfl | member
    · exact ⟨after, nonempty, inside, slice⟩
    · obtain ⟨behind, facts⟩ := ih later piece member
      exact ⟨by omega, facts⟩

theorem Laid.pairwise {pieces : List Piece} {from' : ℕ} (laid : Laid text from' pieces) :
    pieces.Pairwise fun first second => first.stop ≤ second.start := by
  induction pieces generalizing from' with
  | nil => exact List.Pairwise.nil
  | cons first rest ih =>
    obtain ⟨_, _, _, _, later⟩ := laid
    exact List.pairwise_cons.mpr ⟨fun piece member => (later.forall piece member).1, ih later⟩

end Pieces

namespace WordPieceTokenizer

variable {db : CharacterData} {tok : WordPieceTokenizer}

/-- The word token of a piece. -/
def wordOf (db : CharacterData) (tok : WordPieceTokenizer) (piece : Piece) : Word :=
  ⟨tok.normalize db piece.raw, piece.start, piece.stop⟩

theorem basicTokensFrom_eq (turns i : ℕ) (text : CodePoints) :
    tok.basicTokensFrom db turns i text = (piecesFrom db turns i text).map (tok.wordOf db) := by
  induction turns generalizing i text with
  | zero => rfl
  | succ turns ih =>
    cases text with
    | nil => rfl
    | cons ch rest =>
      rw [basicTokensFrom, piecesFrom]
      cases skipped : isSkipped db ch with
      | true =>
        rw [isSkipped] at skipped
        rw [if_pos skipped, if_pos rfl, ih]
      | false =>
        rw [isSkipped] at skipped
        rw [if_neg (Bool.eq_false_iff.mp skipped), if_neg Bool.false_ne_true]
        cases alone : isAlone db ch with
        | true =>
          rw [isAlone] at alone
          rw [if_pos alone, if_pos rfl, ih]
          rfl
        | false =>
          rw [isAlone] at alone
          rw [if_neg (Bool.eq_false_iff.mp alone), if_neg Bool.false_ne_true]
          dsimp only
          rw [ih]
          rfl

def Word.span (word : Word) : ℕ × ℕ := (word.start, word.stop)

/-- The ids of the pieces of the words. -/
def pieceIds (tok : WordPieceTokenizer) (words : List Word) : List ℤ :=
  words.flatMap fun word => tok.wordpiece word.text

/-- The index of each piece's word, from an index on. -/
def labels (tok : WordPieceTokenizer) : ℕ → List Word → List (Option ℕ)
  | _, [] => []
  | index, word :: rest =>
    List.replicate (tok.wordpiece word.text).length (some index) ++ labels tok (index + 1) rest

/-- The encoding extended by words, numbered from an index on. -/
def extend (tok : WordPieceTokenizer) (index : ℕ) (words : List Word) (enc : Encoding) :
    Encoding where
  ids := enc.ids ++ tok.pieceIds words
  wordIds := enc.wordIds ++ tok.labels index words
  wordSpans := enc.wordSpans ++ words.map Word.span

section Encode

variable {index : ℕ}

theorem extend_nil (enc : Encoding) : tok.extend index [] enc = enc := by
  simp [extend, pieceIds, labels]

theorem extend_cons (word : Word) (rest : List Word) (enc : Encoding) :
    tok.extend (index + 1) rest (tok.extend index [word] enc) =
      tok.extend index (word :: rest) enc := by
  simp [extend, pieceIds, labels]

/-- The loop keeps the words before the first one that does not fit. -/
theorem encodeFrom_eq (tok : WordPieceTokenizer) (words : List Word) (index : ℕ) (enc : Encoding) :
    ∃ kept, kept <+: words ∧ tok.encodeFrom index words enc = tok.extend index kept enc ∧
      ((enc.ids.length : ℤ) ≤ tok.maxLen - 1 →
        ((tok.extend index kept enc).ids.length : ℤ) ≤ tok.maxLen - 1) := by
  induction words generalizing index enc with
  | nil => exact ⟨[], List.prefix_refl [], (extend_nil enc).symm, by rw [extend_nil]; exact id⟩
  | cons word rest ih =>
    rw [encodeFrom]
    split
    · exact ⟨[], List.nil_prefix, (extend_nil enc).symm, by rw [extend_nil]; exact id⟩
    · rename_i fits
      have next : tok.extend index [word] enc = {
          ids := enc.ids ++ tok.wordpiece word.text
          wordIds := enc.wordIds ++
            List.replicate (tok.wordpiece word.text).length (some index)
          wordSpans := enc.wordSpans ++ [(word.start, word.stop)] } := by
        simp [extend, pieceIds, labels, Word.span]
      rw [← next]
      obtain ⟨kept, initial, same, bounded⟩ := ih (index + 1) (tok.extend index [word] enc)
      refine ⟨word :: kept, List.cons_prefix_cons.mpr ⟨rfl, initial⟩, ?_, fun _ => ?_⟩
      · rw [same, extend_cons]
      · rw [extend_cons] at bounded
        refine bounded ?_
        rw [next, List.length_append]
        push_cast
        omega

theorem length_labels (tok : WordPieceTokenizer) (index : ℕ) (words : List Word) :
    (tok.labels index words).length = (tok.pieceIds words).length := by
  induction words generalizing index with
  | nil => rfl
  | cons word rest ih =>
    rw [labels, pieceIds, List.flatMap_cons, List.length_append, List.length_append, ih,
      List.length_replicate, pieceIds]

theorem labels_append (first second : List Word) :
    tok.labels index (first ++ second) =
      tok.labels index first ++ tok.labels (index + first.length) second := by
  induction first generalizing index with
  | nil => rfl
  | cons word rest ih =>
    rw [List.cons_append, labels, labels, ih, List.append_assoc, List.length_cons,
      Nat.add_right_comm, Nat.add_assoc]

theorem mem_labels {words : List Word} {label : Option ℕ}
    (member : label ∈ tok.labels index words) :
    ∃ other, label = some other ∧ index ≤ other ∧ other < index + words.length := by
  induction words generalizing index with
  | nil => exact absurd member List.not_mem_nil
  | cons word rest ih =>
    rw [List.length_cons]
    rcases List.mem_append.mp member with here | later
    · exact ⟨index, List.eq_of_mem_replicate here, le_rfl, by omega⟩
    · obtain ⟨other, same, above, below⟩ := ih later
      exact ⟨other, same, by omega, by omega⟩

theorem not_mem_labels {words : List Word} {other : ℕ}
    (outside : other < index ∨ index + words.length ≤ other) :
    some other ∉ tok.labels index words := by
  intro member
  obtain ⟨label, named, above, below⟩ := mem_labels member
  have equal := Option.some.inj named
  omega

/-- The pieces of a word and its index stand at one place between the specials. -/
theorem exists_pieces (tok : WordPieceTokenizer) (before after : List Word) (word : Word) :
    ∃ front back front' back',
      tok.clsId :: (tok.pieceIds (before ++ word :: after) ++ [tok.sepId]) =
        front ++ (tok.wordpiece word.text ++ back) ∧
      none :: (tok.labels 0 (before ++ word :: after) ++ [none]) =
        front' ++ (List.replicate (tok.wordpiece word.text).length (some before.length) ++ back') ∧
      front'.length = front.length ∧ some before.length ∉ front' ∧ some before.length ∉ back' := by
  refine ⟨tok.clsId :: tok.pieceIds before, tok.pieceIds after ++ [tok.sepId],
    none :: tok.labels 0 before, tok.labels (before.length + 1) after ++ [none],
    ?_, ?_, ?_, ?_, ?_⟩
  · simp [pieceIds]
  · simp [labels_append, labels]
  · simp [length_labels]
  · have outside : some before.length ∉ tok.labels 0 before := not_mem_labels (by omega)
    simpa using outside
  · have outside : some before.length ∉ tok.labels (before.length + 1) after :=
      not_mem_labels (by omega)
    simpa using outside

theorem pairwise_labels (tok : WordPieceTokenizer) (index : ℕ) (words : List Word) :
    ((tok.labels index words).filterMap id).Pairwise (· ≤ ·) := by
  induction words generalizing index with
  | nil => exact List.Pairwise.nil
  | cons word rest ih =>
    rw [labels, List.filterMap_append, List.pairwise_append]
    have own : ∀ label ∈ (List.replicate (tok.wordpiece word.text).length (some index)).filterMap
        id, label = index := by
      intro label member
      obtain ⟨entry, inside, same⟩ := List.mem_filterMap.mp member
      rw [List.eq_of_mem_replicate inside] at same
      exact (Option.some.inj same).symm
    refine ⟨List.pairwise_of_forall_mem_list fun first left second right => ?_, ih (index + 1), ?_⟩
    · rw [own first left, own second right]
    · intro first left second right
      obtain ⟨entry, inside, same⟩ := List.mem_filterMap.mp right
      obtain ⟨other, named, above, _⟩ := mem_labels inside
      rw [named] at same
      rw [own first left, ← Option.some.inj same]
      omega

end Encode

/-- What an encoding says about the text it was made from. -/
structure Sound (db : CharacterData) (tok : WordPieceTokenizer) (text : CodePoints) : Prop where
  aligned : (tok.encode db text).ids.length = (tok.encode db text).wordIds.length
  capped : ((tok.encode db text).ids.length : ℤ) ≤ tok.maxLen
  starts : (tok.encode db text).ids.head? = some tok.clsId
  ends : (tok.encode db text).ids.getLast? = some tok.sepId
  inside : ∀ span ∈ (tok.encode db text).wordSpans, span.1 < span.2 ∧ span.2 ≤ text.length
  disjoint : (tok.encode db text).wordSpans.Pairwise fun first second => first.2 ≤ second.1
  ordered : ((tok.encode db text).wordIds.filterMap id).Pairwise (· ≤ ·)
  bounded : ∀ index, some index ∈ (tok.encode db text).wordIds →
    index < (tok.encode db text).wordSpans.length
  /-- The pieces of a word stand in one place, and its index nowhere else. -/
  contiguous : ∀ index word, index < (tok.encode db text).wordSpans.length →
    (tok.basicTokens db text)[index]? = some word →
    ∃ before after before' after',
      (tok.encode db text).ids = before ++ (tok.wordpiece word.text ++ after) ∧
      (tok.encode db text).wordIds =
        before' ++ (List.replicate (tok.wordpiece word.text).length (some index) ++ after') ∧
      before'.length = before.length ∧ some index ∉ before' ∧ some index ∉ after'
  prefixed : (tok.encode db text).wordSpans <+: (tok.basicTokens db text).map Word.span
  sliced : ∀ word ∈ tok.basicTokens db text,
    word.text = tok.normalize db ((text.drop word.start).take (word.stop - word.start))
  covers : ∀ k c, text[k]? = some c → isWhitespace db c = false → isControl db c = false →
    ∃ word ∈ tok.basicTokens db text, word.start ≤ k ∧ k < word.stop

section Text

variable (db : CharacterData) (tok : WordPieceTokenizer) (text : CodePoints)

theorem basicTokens_eq :
    tok.basicTokens db text = (piecesFrom db text.length 0 text).map (tok.wordOf db) :=
  basicTokensFrom_eq _ _ text

/-- An encoding is the specials around the words that are kept. -/
theorem encode_eq (fits : 2 ≤ tok.maxLen) :
    ∃ kept, kept <+: tok.basicTokens db text ∧
      tok.encode db text = {
        ids := tok.clsId :: (tok.pieceIds kept ++ [tok.sepId])
        wordIds := none :: (tok.labels 0 kept ++ [none])
        wordSpans := kept.map Word.span } ∧
      ((tok.pieceIds kept).length : ℤ) + 2 ≤ tok.maxLen := by
  obtain ⟨kept, initial, same, bounded⟩ := encodeFrom_eq tok (tok.basicTokens db text) 0
    ⟨[tok.clsId], [none], []⟩
  have short := bounded (by simp; omega)
  rw [extend, List.length_append, List.length_singleton] at short
  push_cast at short
  refine ⟨kept, initial, ?_, by omega⟩
  rw [encode, same]
  simp [extend]

theorem laid_basicTokens :
    (tok.basicTokens db text).Pairwise (fun first second => first.stop ≤ second.start) ∧
      ∀ word ∈ tok.basicTokens db text, word.start < word.stop ∧ word.stop ≤ text.length ∧
        word.text = tok.normalize db ((text.drop word.start).take (word.stop - word.start)) := by
  have laid : Laid text 0 (piecesFrom db text.length 0 text) := laid_piecesFrom rfl
  rw [basicTokens_eq]
  refine ⟨List.pairwise_map.mpr laid.pairwise, fun word member => ?_⟩
  obtain ⟨piece, inside, rfl⟩ := List.mem_map.mp member
  obtain ⟨_, nonempty, bound, slice⟩ := laid.forall piece inside
  exact ⟨nonempty, bound, congrArg (tok.normalize db) slice⟩

theorem basicTokens_covers {k : ℕ} {c : CodePoint} (here : text[k]? = some c)
    (white : isWhitespace db c = false) (control : isControl db c = false) :
    ∃ word ∈ tok.basicTokens db text, word.start ≤ k ∧ k < word.stop := by
  have kept : isSkipped db c = false := by rw [isSkipped, white, control]; rfl
  obtain ⟨piece, member, bounds⟩ := piecesFrom_covers le_rfl rfl (Nat.zero_le k) here kept
  rw [basicTokens_eq]
  exact ⟨tok.wordOf db piece, List.mem_map_of_mem member, bounds⟩

end Text

/-- A word below the end of a prefix of the words splits the prefix. -/
theorem split_of_prefix {kept words : List Word} (initial : kept <+: words) {index : ℕ}
    {word : Word} (below : index < kept.length) (found : words[index]? = some word) :
    ∃ before after, kept = before ++ word :: after ∧ before.length = index := by
  obtain ⟨rest, rfl⟩ := initial
  rw [List.getElem?_append_left below, List.getElem?_eq_some_iff] at found
  obtain ⟨inside, rfl⟩ := found
  refine ⟨kept.take index, kept.drop (index + 1), ?_, List.length_take_of_le below.le⟩
  rw [List.getElem_cons_drop, List.take_append_drop]

/-- For a limit that leaves room for the specials, every encoding of every text is sound. -/
theorem encode_sound (db : CharacterData) (tok : WordPieceTokenizer) (fits : 2 ≤ tok.maxLen)
    (text : CodePoints) : Sound db tok text := by
  obtain ⟨kept, initial, same, short⟩ := encode_eq db tok text fits
  obtain ⟨apart, placed⟩ := laid_basicTokens db tok text
  have labelled := length_labels tok 0 kept
  constructor
  · rw [same]
    simp [labelled]
  · rw [same]
    simp only [List.length_cons, List.length_append, List.length_nil]
    push_cast
    omega
  · rw [same]
    rfl
  · rw [same]
    exact List.getLast?_concat (l := tok.clsId :: tok.pieceIds kept)
  · rw [same]
    intro span member
    obtain ⟨word, chosen, rfl⟩ := List.mem_map.mp member
    obtain ⟨nonempty, bound, _⟩ := placed word (initial.subset chosen)
    exact ⟨nonempty, bound⟩
  · rw [same]
    exact List.pairwise_map.mpr (apart.sublist initial.sublist)
  · rw [same]
    simpa [List.filterMap_append] using pairwise_labels tok 0 kept
  · rw [same]
    intro index member
    simp only [List.mem_cons, List.mem_append, List.not_mem_nil, or_false, reduceCtorEq,
      false_or] at member
    obtain ⟨other, named, _, below⟩ := mem_labels member
    rw [Option.some.inj named, List.length_map]
    omega
  · rw [same]
    intro index word below found
    rw [List.length_map] at below
    obtain ⟨before, after, rfl, rfl⟩ := split_of_prefix initial below found
    exact exists_pieces tok before after word
  · rw [same]
    exact initial.map Word.span
  · exact fun word member => (placed word member).2.2
  · exact fun k c here white control => basicTokens_covers db tok text here white control

def greetingVocab : List (CodePoints × ℤ) :=
  [(pad, 0), (unk, 1), (cls, 2), (sep, 3), (points "hello", 4), (points "wor", 5),
    (points "##ld", 6)]

theorem greetingVocab_specials : greetingVocab.lookup cls = some 2 ∧
    greetingVocab.lookup sep = some 3 ∧ greetingVocab.lookup unk = some 1 := by decide +kernel

/-- A tokenizer with room for four pieces. -/
def greetingTokenizer : WordPieceTokenizer where
  vocab := greetingVocab
  doLowerCase := true
  stripAccents := true
  maxLen := 6
  clsId := 2
  sepId := 3
  padId := 0
  unkId := 1
  has_cls := greetingVocab_specials.1
  has_sep := greetingVocab_specials.2.1
  has_unk := greetingVocab_specials.2.2

example : greetingTokenizer.encode .ascii (points "Hello, world hello") =
    ⟨[2, 4, 1, 5, 6, 3], [none, some 0, some 1, some 2, some 2, none],
      [(0, 5), (5, 6), (7, 12)]⟩ := by decide +kernel

theorem greeting_sound : Sound .ascii greetingTokenizer (points "Hello, world hello") :=
  encode_sound .ascii greetingTokenizer (by decide) _

end WordPieceTokenizer

end NewsAggregator.Tokenize
