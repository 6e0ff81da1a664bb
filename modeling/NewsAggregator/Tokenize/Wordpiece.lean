import Mathlib.Data.List.Basic
import NewsAggregator.Foundation.LongestMatch
import NewsAggregator.Foundation.Unicode

/-! The BERT WordPiece tokenizer: basic tokens with their spans in the text, greedy
longest-match pieces of a vocabulary, and the encoding cut at a word boundary. -/

namespace NewsAggregator.Tokenize

open Foundation

/-- A literal of the source. -/
def points (text : String) : CodePoints := text.toList.map fun c => Fin.ofNat _ c.toNat

def cls : CodePoints := points "[CLS]"
def sep : CodePoints := points "[SEP]"
def pad : CodePoints := points "[PAD]"
def unk : CodePoints := points "[UNK]"

/-- `_MAX_CHARS_PER_WORD`. -/
def maxCharsPerWord : ℕ := 100

structure Encoding where
  ids : List ℤ
  wordIds : List (Option ℕ)
  wordSpans : List (ℕ × ℕ)
  deriving DecidableEq

section Classes

variable (db : CharacterData)

def isControl (ch : CodePoint) : Bool :=
  if ch = 9 ∨ ch = 10 ∨ ch = 13 then false else (db.category ch).isOther

def isWhitespace (ch : CodePoint) : Bool :=
  if ch = blank ∨ ch = 9 ∨ ch = 10 ∨ ch = 13 then true else db.category ch = .zs

def isPunctuation (ch : CodePoint) : Bool :=
  if (33 ≤ ch ∧ ch ≤ 47) ∨ (58 ≤ ch ∧ ch ≤ 64) ∨ (91 ≤ ch ∧ ch ≤ 96) ∨
      (123 ≤ ch ∧ ch ≤ 126) then true
  else (db.category ch).isPunctuation

def isCjk (cp : CodePoint) : Bool :=
  (0x4E00 ≤ cp ∧ cp ≤ 0x9FFF) ∨ (0x3400 ≤ cp ∧ cp ≤ 0x4DBF) ∨ (0x20000 ≤ cp ∧ cp ≤ 0x2A6DF) ∨
    (0x2A700 ≤ cp ∧ cp ≤ 0x2B73F) ∨ (0x2B740 ≤ cp ∧ cp ≤ 0x2B81F) ∨
    (0x2B820 ≤ cp ∧ cp ≤ 0x2CEAF) ∨ (0xF900 ≤ cp ∧ cp ≤ 0xFAFF) ∨ (0x2F800 ≤ cp ∧ cp ≤ 0x2FA1F)

/-- Belongs to no word. -/
def isSkipped (ch : CodePoint) : Bool := isWhitespace db ch || isControl db ch

/-- Is a word of its own. -/
def isAlone (ch : CodePoint) : Bool := isPunctuation db ch || isCjk ch

/-- Continues a run. -/
def isWordChar (ch : CodePoint) : Bool := !(isSkipped db ch || isAlone db ch)

end Classes

/-- The tokenizer; its vocabulary has the specials. -/
structure WordPieceTokenizer where
  vocab : List (CodePoints × ℤ)
  doLowerCase : Bool
  stripAccents : Bool
  maxLen : ℤ
  clsId : ℤ
  sepId : ℤ
  padId : ℤ
  unkId : ℤ
  has_cls : vocab.lookup cls = some clsId
  has_sep : vocab.lookup sep = some sepId
  has_unk : vocab.lookup unk = some unkId

namespace WordPieceTokenizer

/-- `__init__`; `none` where a special is missing. -/
def init (vocab : List (CodePoints × ℤ)) (doLowerCase : Bool) (stripAccents : Option Bool)
    (maxLen : ℤ) : Option WordPieceTokenizer :=
  match has_cls : vocab.lookup cls, has_sep : vocab.lookup sep, has_unk : vocab.lookup unk with
  | some clsId, some sepId, some unkId => some {
      vocab, doLowerCase, maxLen, clsId, sepId, unkId, has_cls, has_sep, has_unk
      stripAccents := stripAccents.getD doLowerCase
      padId := (vocab.lookup pad).getD 0 }
  | _, _, _ => none

/-- Construction fails exactly where a special is missing. -/
theorem init_isSome_iff (vocab : List (CodePoints × ℤ)) (doLowerCase : Bool)
    (stripAccents : Option Bool) (maxLen : ℤ) :
    (init vocab doLowerCase stripAccents maxLen).isSome ↔
      ∀ special ∈ [cls, sep, unk], (vocab.lookup special).isSome := by
  simp only [List.forall_mem_cons, List.not_mem_nil, false_implies, implies_true, and_true]
  unfold init
  split
  · rename_i has_cls has_sep has_unk
    simp [has_cls, has_sep, has_unk]
  · rename_i missing
    refine ⟨fun built => absurd built (by simp), fun ⟨first, second, third⟩ => ?_⟩
    obtain ⟨clsId, has_cls⟩ := Option.isSome_iff_exists.mp first
    obtain ⟨sepId, has_sep⟩ := Option.isSome_iff_exists.mp second
    obtain ⟨unkId, has_unk⟩ := Option.isSome_iff_exists.mp third
    exact absurd has_unk (missing clsId sepId unkId has_cls has_sep)

variable (db : CharacterData) (tok : WordPieceTokenizer)

/-- `_normalize`. -/
def normalize (token : CodePoints) : CodePoints :=
  let token := if tok.doLowerCase then db.lower token else token
  if tok.stripAccents then db.stripMarks token else token

/-- A word token with its span. -/
structure Word where
  text : CodePoints
  start : ℕ
  stop : ℕ

/-- The outer loop of `_basic_tokens`, at most one turn for each character. -/
def basicTokensFrom : ℕ → ℕ → CodePoints → List Word
  | 0, _, _ => []
  | _, _, [] => []
  | turns + 1, i, ch :: rest =>
    if isWhitespace db ch || isControl db ch then basicTokensFrom turns (i + 1) rest
    else if isPunctuation db ch || isCjk ch then
      ⟨tok.normalize db [ch], i, i + 1⟩ :: basicTokensFrom turns (i + 1) rest
    else
      let run := (ch :: rest).takeWhile (isWordChar db)
      ⟨tok.normalize db run, i, i + run.length⟩ ::
        basicTokensFrom turns (i + run.length) ((ch :: rest).dropWhile (isWordChar db))

/-- `_basic_tokens`. -/
def basicTokens (text : CodePoints) : List Word := tok.basicTokensFrom db text.length 0 text

/-- The inner loop of `_wordpiece`: the longest piece that starts here, and its length. -/
def longestPiece (continued : Bool) (chars : CodePoints) : Option (ℤ × ℕ) :=
  (List.range chars.length).reverse.findSome? fun shorter =>
    let sub := chars.take (shorter + 1)
    (tok.vocab.lookup (if continued then points "##" ++ sub else sub)).map (·, shorter + 1)

/-- The outer loop; `none` where no piece starts. -/
def wordpieceFrom : ℕ → Bool → CodePoints → Option (List ℤ)
  | 0, _, _ => some []
  | _, _, [] => some []
  | turns + 1, continued, chars =>
    match tok.longestPiece continued chars with
    | none => none
    | some (id, length) => (wordpieceFrom turns true (chars.drop length)).map (id :: ·)

/-- `_wordpiece`. -/
def wordpiece (token : CodePoints) : List ℤ :=
  if maxCharsPerWord < token.length then [tok.unkId]
  else (tok.wordpieceFrom token.length false token).getD [tok.unkId]

/-- The loop of `encode` from a word on; it breaks at the first word that does not fit. -/
def encodeFrom : ℕ → List Word → Encoding → Encoding
  | _, [], enc => enc
  | wordIndex, word :: rest, enc =>
    let pieceIds := tok.wordpiece word.text
    if tok.maxLen - 2 < (enc.ids.length : ℤ) - 1 + pieceIds.length then enc
    else encodeFrom (wordIndex + 1) rest {
      ids := enc.ids ++ pieceIds
      wordIds := enc.wordIds ++ List.replicate pieceIds.length (some wordIndex)
      wordSpans := enc.wordSpans ++ [(word.start, word.stop)] }

def encode (text : CodePoints) : Encoding :=
  let enc := tok.encodeFrom 0 (tok.basicTokens db text) ⟨[tok.clsId], [none], []⟩
  { enc with ids := enc.ids ++ [tok.sepId], wordIds := enc.wordIds ++ [none] }

end WordPieceTokenizer

end NewsAggregator.Tokenize
