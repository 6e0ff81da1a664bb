import NewsAggregator.Foundation.Greedy
import NewsAggregator.Tokenize.Spans

/-! A word is cut into the longest pieces of the vocabulary, and no text makes an encoding
hold a special token inside. -/

namespace NewsAggregator.Tokenize

open Foundation Greedy

namespace WordPieceTokenizer

variable {db : CharacterData} {tok : WordPieceTokenizer} {continued : Bool} {chars : CodePoints}

/-- The key of a piece in the vocabulary: after the first position it has the prefix `##`. -/
def pieceKey (continued : Bool) (sub : CodePoints) : CodePoints :=
  if continued then points "##" ++ sub else sub

def find (tok : WordPieceTokenizer) (continued : Bool) (sub : CodePoints) : Option ℤ :=
  tok.vocab.lookup (pieceKey continued sub)

theorem longestPiece_eq (tok : WordPieceTokenizer) (continued : Bool) (chars : CodePoints) :
    tok.longestPiece continued chars = (List.range chars.length).reverse.findSome? fun shorter =>
      (tok.find continued (chars.take (shorter + 1))).map (·, shorter + 1) := rfl

/-- A nonempty prefix is what the loop takes at one of its turns. -/
theorem prefix_turn {sub : CodePoints} (nonempty : sub ≠ []) (starts : sub <+: chars) :
    sub.length - 1 < chars.length ∧ chars.take (sub.length - 1 + 1) = sub := by
  have positive := List.length_pos_iff.mpr nonempty
  have short := starts.length_le
  refine ⟨by omega, ?_⟩
  rw [Nat.sub_add_cancel positive]
  exact (List.prefix_iff_eq_take.mp starts).symm

theorem longestPiece_some {id : ℤ} {length : ℕ}
    (answer : tok.longestPiece continued chars = some (id, length)) :
    0 < length ∧ length ≤ chars.length ∧
      Longest tok.find continued chars (chars.take length, id) := by
  rw [longestPiece_eq] at answer
  obtain ⟨index, _, made⟩ := List.exists_of_findSome?_eq_some answer
  obtain ⟨_, _, pair⟩ := Option.map_eq_some_iff.mp made
  obtain ⟨rfl, rfl⟩ := Prod.mk.inj pair
  obtain ⟨below, found, above⟩ := findSome_down.mp answer
  refine ⟨Nat.succ_pos index, below, ?_, List.take_prefix _ _, found, ?_⟩
  · apply List.length_pos_iff.mp
    rw [List.length_take]
    omega
  · intro other starts matched
    rw [List.length_take]
    by_contra longer
    have nonempty : other ≠ [] := by
      apply List.length_pos_iff.mp
      omega
    obtain ⟨inside, taken⟩ := prefix_turn nonempty starts
    have missing := above (other.length - 1) (by omega) inside
    rw [taken] at missing
    simp [missing] at matched

theorem longestPiece_none (answer : tok.longestPiece continued chars = none) :
    Unmatched tok.find continued chars := by
  intro other nonempty starts
  rw [longestPiece_eq, List.findSome?_eq_none_iff] at answer
  obtain ⟨inside, taken⟩ := prefix_turn nonempty starts
  have missing := answer (other.length - 1) (List.mem_reverse.mpr (List.mem_range.mpr inside))
  rw [taken] at missing
  exact Option.map_eq_none_iff.mp missing

/-- The outer loop fails exactly where it is stuck, and else cuts the whole word. -/
theorem wordpieceFrom_spec {turns : ℕ} (enough : chars.length ≤ turns) :
    (tok.wordpieceFrom turns continued chars = none ∧ Stuck tok.find continued chars) ∨
      ∃ pieces, Segmented tok.find continued chars pieces ∧
        tok.wordpieceFrom turns continued chars = some (pieces.map Prod.snd) := by
  induction turns generalizing continued chars with
  | zero =>
    obtain rfl := List.length_eq_zero_iff.mp (Nat.le_zero.mp enough)
    exact .inr ⟨[], .stop continued, rfl⟩
  | succ turns ih =>
    cases chars with
    | nil => exact .inr ⟨[], .stop continued, rfl⟩
    | cons c rest =>
      rw [wordpieceFrom]
      · cases answer : tok.longestPiece continued (c :: rest) with
        | none =>
          exact .inl ⟨rfl, .here (List.cons_ne_nil c rest) (longestPiece_none answer)⟩
        | some found =>
          obtain ⟨id, length⟩ := found
          obtain ⟨positive, inside, longest⟩ := longestPiece_some answer
          have taken : ((c :: rest).take length).length = length := List.length_take_of_le inside
          have shorter : ((c :: rest).drop length).length ≤ turns := by
            rw [List.length_drop]
            omega
          dsimp only
          rcases @ih true _ shorter with ⟨failed, stuck⟩ | ⟨pieces, segmented, later⟩
          · left
            rw [failed]
            refine ⟨rfl, .later longest ?_⟩
            rwa [taken]
          · right
            rw [later]
            refine ⟨_, .piece longest ?_, rfl⟩
            rwa [taken]
      · exact fun none => List.cons_ne_nil c rest none

section Word

variable {word : CodePoints}

theorem wordpiece_stuck (short : word.length ≤ maxCharsPerWord)
    (stuck : Stuck tok.find false word) : tok.wordpiece word = [tok.unkId] := by
  rw [wordpiece, if_neg (Nat.not_lt.mpr short)]
  rcases @wordpieceFrom_spec tok false word _ le_rfl with ⟨failed, _⟩ | ⟨pieces, segmented, _⟩
  · rw [failed]
    rfl
  · exact absurd stuck segmented.not_stuck

theorem wordpiece_segmented (short : word.length ≤ maxCharsPerWord)
    (free : ¬ Stuck tok.find false word) :
    ∃ pieces, Segmented tok.find false word pieces ∧ tok.wordpiece word = pieces.map Prod.snd := by
  rw [wordpiece, if_neg (Nat.not_lt.mpr short)]
  rcases @wordpieceFrom_spec tok false word _ le_rfl with ⟨_, stuck⟩ | ⟨pieces, segmented, made⟩
  · exact absurd stuck free
  · refine ⟨pieces, segmented, ?_⟩
    rw [made]
    rfl

/-- The unknown id alone: nothing else was found, or the word is its entry. -/
theorem wordpiece_eq_unk_iff (short : word.length ≤ maxCharsPerWord) :
    tok.wordpiece word = [tok.unkId] ↔ Stuck tok.find false word ∨
      word ≠ [] ∧ tok.vocab.lookup word = some tok.unkId := by
  constructor
  · intro unknown
    by_cases stuck : Stuck tok.find false word
    · exact .inl stuck
    · obtain ⟨pieces, segmented, made⟩ := wordpiece_segmented short stuck
      rw [unknown] at made
      obtain ⟨piece, rfl, id⟩ := List.map_eq_singleton_iff.mp made.symm
      have whole := segmented.flatten_eq
      simp only [List.map_cons, List.map_nil, List.flatten_cons, List.flatten_nil,
        List.append_nil] at whole
      cases segmented with
      | piece longest after =>
        have nonempty := longest.nonempty
        have found := longest.found
        rw [whole] at nonempty found
        rw [id] at found
        exact .inr ⟨nonempty, found⟩
  · intro either
    rcases either with stuck | ⟨nonempty, found⟩
    · exact wordpiece_stuck short stuck
    · have segmented : Segmented tok.find false word [(word, tok.unkId)] :=
        segmented_whole nonempty found
      obtain ⟨pieces, other, made⟩ := wordpiece_segmented short segmented.not_stuck
      rw [made, other.unique segmented]
      rfl

end Word

/-- `[`, with which the specials begin. -/
def bracket : CodePoint := 0x5B

/-- Distinct strings have distinct ids. -/
def Distinct (vocab : List (CodePoints × ℤ)) : Prop :=
  ∀ first second id, vocab.lookup first = some id → vocab.lookup second = some id → first = second

/-- Normalization makes no `[`, and keeps the one it is given. -/
structure KeepsBracket (db : CharacterData) (tok : WordPieceTokenizer) : Prop where
  fresh : ∀ token, bracket ∉ token → bracket ∉ tok.normalize db token
  kept : tok.normalize db [bracket] = [bracket]

theorem specials_spelled : ∀ special ∈ [cls, sep, pad], special ≠ unk ∧ 1 < special.length ∧
    special.head? = some bracket := by decide +kernel

theorem head_pieceKey (sub : CodePoints) : (pieceKey true sub).head? = some 0x23 := by
  have marks : points "##" = [0x23, 0x23] := by decide +kernel
  rw [pieceKey, if_pos rfl, marks]
  rfl

/-- A special comes out of a word only where the word begins with its string. -/
theorem special_starts (distinct : Distinct tok.vocab) {special word : CodePoints} {id : ℤ}
    (listed : special ∈ [cls, sep, pad]) (held : tok.vocab.lookup special = some id)
    (member : id ∈ tok.wordpiece word) : special <+: word := by
  obtain ⟨known, _, head⟩ := specials_spelled special listed
  have other : id ≠ tok.unkId := by
    intro same
    rw [same] at held
    exact known (distinct special unk tok.unkId held tok.has_unk)
  rw [wordpiece] at member
  split at member
  · exact absurd (List.mem_singleton.mp member) other
  · rcases @wordpieceFrom_spec tok false word _ le_rfl with ⟨failed, _⟩ | ⟨pieces, segmented, made⟩
    · rw [failed] at member
      exact absurd (List.mem_singleton.mp member) other
    · rw [made] at member
      obtain ⟨piece, inside, rfl⟩ := List.mem_map.mp member
      rcases segmented.of_mem inside with later | ⟨first, starts⟩
      · have spelled := distinct _ _ _ held later
        rw [spelled, head_pieceKey] at head
        exact absurd head (by decide)
      · rwa [distinct _ _ _ held first]

theorem not_isWordChar_bracket (db : CharacterData) : isWordChar db bracket = false := by
  have alone : isAlone db bracket = true := by simp [isAlone, isPunctuation, bracket]
  rw [isWordChar, alone, Bool.or_true]
  rfl

/-- A piece is one character, or a run of word characters. -/
theorem raw_of_mem {turns i : ℕ} {text : CodePoints} {piece : Piece}
    (member : piece ∈ piecesFrom db turns i text) :
    (∃ c, piece.raw = [c]) ∨ ∀ c ∈ piece.raw, isWordChar db c = true := by
  induction turns generalizing i text with
  | zero => cases member
  | succ turns ih =>
    cases text with
    | nil => cases member
    | cons ch rest =>
      rw [piecesFrom] at member
      split at member
      · exact ih member
      · split at member
        · rcases List.mem_cons.mp member with first | later
          · exact .inl ⟨ch, by rw [first]⟩
          · exact ih later
        · rcases List.mem_cons.mp member with first | later
          · right
            intro c inside
            rw [first] at inside
            exact List.all_eq_true.mp List.all_takeWhile c inside
          · exact ih later

/-- No word of a text begins with a special. -/
theorem not_special_prefix (keeps : KeepsBracket db tok) {text : CodePoints} {word : Word}
    (member : word ∈ tok.basicTokens db text) {special : CodePoints}
    (listed : special ∈ [cls, sep, pad]) : ¬ special <+: word.text := by
  intro starts
  obtain ⟨_, long, head⟩ := specials_spelled special listed
  have held : bracket ∈ word.text := starts.subset (List.mem_of_head? head)
  rw [basicTokens_eq] at member
  obtain ⟨piece, inside, rfl⟩ := List.mem_map.mp member
  have raw : bracket ∈ piece.raw := by
    by_contra absent
    exact keeps.fresh piece.raw absent held
  rcases raw_of_mem inside with ⟨c, single⟩ | run
  · rw [single, List.mem_singleton] at raw
    have short := starts.length_le
    rw [wordOf, single, ← raw, keeps.kept] at short
    simp only [List.length_singleton] at short
    omega
  · have wordChar := run bracket raw
    rw [not_isWordChar_bracket] at wordChar
    cases wordChar

/-- What stands between the first and the last token of an encoding is no special. -/
theorem inside_not_special (pads : tok.vocab.lookup pad = some tok.padId)
    (distinct : Distinct tok.vocab) (keeps : KeepsBracket db tok) {text : CodePoints} {index : ℕ}
    {id : ℤ} (after : 0 < index) (before : index + 1 < (tok.encode db text).ids.length)
    (here : (tok.encode db text).ids[index]? = some id) :
    id ≠ tok.clsId ∧ id ≠ tok.sepId ∧ id ≠ tok.padId := by
  obtain ⟨kept, initial, same, _⟩ := encodeFrom_eq tok (tok.basicTokens db text) 0
    ⟨[tok.clsId], [none], []⟩
  have ids : (tok.encode db text).ids = tok.clsId :: (tok.pieceIds kept ++ [tok.sepId]) := by
    rw [encode, same]
    simp [extend]
  have inside : id ∈ tok.pieceIds kept := by
    obtain ⟨earlier, rfl⟩ := Nat.exists_eq_succ_of_ne_zero after.ne'
    rw [ids] at before here
    simp only [List.length_cons, List.length_append, List.length_nil] at before
    rw [List.getElem?_cons_succ, List.getElem?_append_left (by omega)] at here
    exact List.mem_of_getElem? here
  obtain ⟨word, chosen, made⟩ := List.mem_flatMap.mp inside
  have clean {special : CodePoints} {other : ℤ} (listed : special ∈ [cls, sep, pad])
      (held : tok.vocab.lookup special = some other) : id ≠ other := by
    rintro rfl
    exact not_special_prefix keeps (initial.subset chosen) listed
      (special_starts distinct listed held made)
  exact ⟨clean (by simp) tok.has_cls, clean (by simp) tok.has_sep, clean (by simp) pads⟩

/-- Words of at most 100 characters become the unknown id where no piece begins the rest,
and else their longest pieces; the unknown id comes also from a word that is its entry.
With the specials apart from everything else, no text puts one inside an encoding. -/
theorem wordpiece_greedy (db : CharacterData) (tok : WordPieceTokenizer) :
    (∀ word, word.length ≤ maxCharsPerWord →
      (Stuck tok.find false word → tok.wordpiece word = [tok.unkId]) ∧
      (¬ Stuck tok.find false word → ∃ pieces, Segmented tok.find false word pieces ∧
        (pieces.map Prod.fst).flatten = word ∧ tok.wordpiece word = pieces.map Prod.snd) ∧
      (tok.wordpiece word = [tok.unkId] ↔ Stuck tok.find false word ∨
        word ≠ [] ∧ tok.vocab.lookup word = some tok.unkId)) ∧
    (tok.vocab.lookup pad = some tok.padId → Distinct tok.vocab → KeepsBracket db tok →
      ∀ text index id, 0 < index → index + 1 < (tok.encode db text).ids.length →
        (tok.encode db text).ids[index]? = some id →
          id ≠ tok.clsId ∧ id ≠ tok.sepId ∧ id ≠ tok.padId) := by
  constructor
  · intro word short
    refine ⟨wordpiece_stuck short, fun free => ?_, wordpiece_eq_unk_iff short⟩
    obtain ⟨pieces, segmented, made⟩ := wordpiece_segmented short free
    exact ⟨pieces, segmented, segmented.flatten_eq, made⟩
  · intro pads distinct keeps text index id after before here
    exact inside_not_special pads distinct keeps after before here

/-- The entry of the unknown token as a word is not stuck, and gives its id. -/
theorem unknown_entry : ¬ (greetingTokenizer.wordpiece unk = [greetingTokenizer.unkId] ↔
    Stuck greetingTokenizer.find false unk) := by
  have found : greetingTokenizer.find false unk = some 1 := by decide +kernel
  have segmented : Segmented greetingTokenizer.find false unk [(unk, 1)] :=
    segmented_whole (by decide +kernel) found
  intro only
  exact segmented.not_stuck (only.mp (by decide +kernel))

/-- The same vocabulary, cased. -/
def casedTokenizer : WordPieceTokenizer :=
  { greetingTokenizer with doLowerCase := false, stripAccents := false }

theorem distinct_greeting : Distinct greetingVocab := by
  have apart : ∀ first ∈ greetingVocab, ∀ second ∈ greetingVocab,
      first.2 = second.2 → first.1 = second.1 := by decide +kernel
  have entry {key : CodePoints} {id : ℤ} (held : greetingVocab.lookup key = some id) :
      (key, id) ∈ greetingVocab := by
    obtain ⟨before, after, split, _⟩ := List.lookup_eq_some_iff.mp held
    simp [split]
  intro first second id held other
  exact apart _ (entry held) _ (entry other) rfl

theorem keepsBracket_cased : KeepsBracket .ascii casedTokenizer where
  fresh _ absent := absent
  kept := rfl

theorem wordpiece_greedy_cased :
    (casedTokenizer.wordpiece unk = [1] ↔ Stuck casedTokenizer.find false unk ∨
      unk ≠ [] ∧ casedTokenizer.vocab.lookup unk = some 1) ∧
    ∀ text index id, 0 < index → index + 1 < (casedTokenizer.encode .ascii text).ids.length →
      (casedTokenizer.encode .ascii text).ids[index]? = some id → id ≠ 2 ∧ id ≠ 3 ∧ id ≠ 0 := by
  constructor
  · exact ((wordpiece_greedy .ascii casedTokenizer).1 unk (by decide +kernel)).2.2
  · exact (wordpiece_greedy .ascii casedTokenizer).2 (by decide +kernel) distinct_greeting
      keepsBracket_cased

end WordPieceTokenizer

end NewsAggregator.Tokenize
