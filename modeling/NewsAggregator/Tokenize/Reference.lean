import Mathlib.Algebra.Order.BigOperators.Group.List
import NewsAggregator.Foundation.Cutting
import NewsAggregator.Foundation.UnicodeParts
import NewsAggregator.Tokenize.Spans

/-! The words of the BERT reference pipeline, and when the fused scan finds the same ones. -/

namespace NewsAggregator.Tokenize

open Foundation

section Pipeline

variable (db : CharacterData)

/-- Cleaned away by the reference: NUL, U+FFFD and the control characters. -/
def isDeleted (ch : CodePoint) : Bool := ch = 0 ∨ ch = replacement ∨ isControl db ch

def isKept (ch : CodePoint) : Bool := !isDeleted db ch

def toBlank (ch : CodePoint) : CodePoint := if isWhitespace db ch then blank else ch

def padCjk (ch : CodePoint) : CodePoints := if isCjk ch then [blank, ch, blank] else [ch]

/-- The tokens of the reference before they are normalized. -/
def referenceTokens (text : CodePoints) : List CodePoints :=
  (((text.filter (isKept db)).map (toBlank db)).flatMap padCjk).splitOn blank

/-- A text split at punctuation, each mark a word of its own. -/
def splitPunctuation (text : CodePoints) : List CodePoints :=
  segments (fun _ => false) (isPunctuation db) text

/-- The reference word sequence of a text. -/
def referenceWords (tok : WordPieceTokenizer) (text : CodePoints) : List CodePoints :=
  nonempty ((referenceTokens db text).flatMap fun token =>
    splitPunctuation db (tok.normalize db token))

/-- The scan finds the words of the reference. -/
def Agrees (tok : WordPieceTokenizer) (text : CodePoints) : Prop :=
  nonempty ((tok.basicTokens db text).map WordPieceTokenizer.Word.text) =
    referenceWords db tok text

instance (tok : WordPieceTokenizer) (text : CodePoints) : Decidable (Agrees db tok text) :=
  inferInstanceAs (Decidable (_ = _))

/-- What stands between the whitespace of a text, its ideographs apart. -/
def stretches (text : CodePoints) : List CodePoints :=
  segments (fun ch => isWhitespace db ch && isKept db ch) (fun ch => isCjk ch && isKept db ch) text

/-- The runs of word characters and the marks of a stretch. -/
def runs (stretch : CodePoints) : List CodePoints := chunks (isSkipped db) (isAlone db) stretch

end Pipeline

section Pieces

variable {db : CharacterData}

/-- The scan cuts a text at what it skips and at what stands alone. -/
theorem raw_piecesFrom {turns i : ℕ} {text : CodePoints} (enough : text.length ≤ turns) :
    (piecesFrom db turns i text).map Piece.raw = runs db text := by
  induction turns generalizing i text with
  | zero =>
    obtain rfl := List.eq_nil_of_length_eq_zero (Nat.le_zero.mp enough)
    rfl
  | succ turns ih =>
    cases text with
    | nil => rfl
    | cons ch rest =>
      rw [List.length_cons] at enough
      rw [piecesFrom]
      cases skipped : isSkipped db ch with
      | true => rw [if_pos rfl, ih (by omega), runs, runs, chunks_drop skipped]
      | false =>
        rw [if_neg Bool.false_ne_true]
        cases alone : isAlone db ch with
        | true =>
          rw [if_pos rfl, List.map_cons, ih (by omega), runs, runs, chunks_alone skipped alone]
        | false =>
          have word : isWordChar db ch = true := by rw [isWordChar, skipped, alone]; rfl
          have shorter : ((ch :: rest).dropWhile (isWordChar db)).length ≤ rest.length := by
            rw [List.dropWhile_cons_of_pos word]
            exact List.length_dropWhile_le _ _
          have cut : runs db (ch :: rest) = (ch :: rest).takeWhile (isWordChar db) ::
              runs db ((ch :: rest).dropWhile (isWordChar db)) :=
            chunks_takeWhile (fun _ => rfl) word
          rw [if_neg Bool.false_ne_true]
          dsimp only
          rw [List.map_cons, ih (by omega), cut]

theorem blank_not_cjk : isCjk blank = false := by decide

theorem isWhitespace_blank : isWhitespace db blank = true := rfl

/-- Splitting the padded text at blanks cuts it at whitespace and around ideographs. -/
theorem splitOn_padded (text : CodePoints) :
    ((text.map (toBlank db)).flatMap padCjk).splitOn blank =
      segments (isWhitespace db) isCjk text := by
  induction text with
  | nil => rfl
  | cons c rest ih =>
    rw [List.map_cons, List.flatMap_cons]
    cases white : isWhitespace db c with
    | true =>
      have one : padCjk (toBlank db c) = [blank] := by
        rw [toBlank, if_pos white, padCjk, blank_not_cjk]
        rfl
      rw [one, segments_drop white, List.singleton_append,
        List.splitOn_cons_eq_if_modifyHead, if_pos (by decide), ih]
    | false =>
      have other : c ≠ blank := by
        rintro rfl
        exact absurd white (by rw [isWhitespace_blank]; exact Bool.noConfusion)
      have same : toBlank db c = c := if_neg (Bool.eq_false_iff.mp white)
      rw [same, padCjk]
      cases ideograph : isCjk c with
      | true =>
        rw [if_pos rfl, segments_alone white ideograph, ← ih]
        simp [List.splitOn_cons_eq_if_modifyHead, other]
      | false =>
        rw [if_neg Bool.false_ne_true, segments_run white ideograph, ← ih]
        simp [List.splitOn_cons_eq_if_modifyHead, other]

/-- The tokens of the reference are the stretches without what is deleted. -/
theorem referenceTokens_eq (text : CodePoints) :
    referenceTokens db text =
      (stretches db text).map fun stretch => stretch.filter (isKept db) := by
  rw [referenceTokens, splitOn_padded, stretches, ← segments_filter]
  · refine segments_congr fun c member => ?_
    have kept : isKept db c = true := (List.mem_filter.mp member).2
    simp [kept]
  · intro c deleted
    simp [deleted]

end Pieces

section Words

variable (db : CharacterData) (tok : WordPieceTokenizer)

/-- The words the scan finds in a stretch. -/
def scannedIn (stretch : CodePoints) : List CodePoints :=
  nonempty ((runs db stretch).map (tok.normalize db))

/-- The words of the reference in a stretch. -/
def referenceIn (stretch : CodePoints) : List CodePoints :=
  chunks (fun _ => false) (isPunctuation db) (tok.normalize db (stretch.filter (isKept db)))

/-- What a character normalizes to by itself. -/
def image (c : CodePoint) : CodePoints := tok.normalize db [c]

theorem countP_eq_sum (p : CodePoint → Bool) (text : CodePoints) :
    text.countP p = (text.map fun c => [c].countP p).sum := by
  induction text with
  | nil => rfl
  | cons c rest ih =>
    rw [List.countP_cons, ih, List.map_cons, List.sum_cons, List.countP_singleton, Nat.add_comm]

/-- A normalized text has of a kind what its characters have by themselves. -/
theorem countP_normalize {p : CodePoint → Bool} (alike : p smallFinalSigma = p smallSigma)
    (text : CodePoints) :
    (tok.normalize db text).countP p = (text.map fun c => (image db tok c).countP p).sum := by
  have weighed : ∃ weight : CodePoint → ℕ, ∀ text,
      (tok.normalize db text).countP p = (text.map weight).sum := by
    unfold WordPieceTokenizer.normalize
    cases tok.doLowerCase with
    | true =>
      cases tok.stripAccents with
      | true => exact ⟨_, fun text => (db.countP_stripMarks _).trans
          (db.sum_lowerFrom (db.strippedCount_sigmas alike) [] text)⟩
      | false => exact ⟨_, fun text => (countP_eq_sum p _).trans
          (db.sum_lowerFrom (by simp [List.countP_singleton, alike]) [] text)⟩
    | false =>
      cases tok.stripAccents with
      | true => exact ⟨_, db.countP_stripMarks⟩
      | false => exact ⟨_, countP_eq_sum p⟩
  obtain ⟨weight, sum⟩ := weighed
  have single : (fun c => (image db tok c).countP p) = weight := by
    funext c
    rw [image, sum, List.map_singleton, List.sum_singleton]
  rw [sum, single]

theorem length_normalize (text : CodePoints) :
    (tok.normalize db text).length = (text.flatMap (image db tok)).length := by
  have all := countP_normalize db tok (p := fun _ => true) rfl text
  simpa [List.length_flatMap] using all

theorem runs_eq_flatMap (text : CodePoints) :
    runs db text = (stretches db text).flatMap (runs db) := by
  refine chunks_eq_flatMap (fun c white => ?_) (fun c ideograph => ?_) text
  · rw [isSkipped, (Bool.and_eq_true_iff.mp white).1, Bool.true_or]
  · right
    rw [isAlone, (Bool.and_eq_true_iff.mp ideograph).1, Bool.or_true]

theorem basicTokens_texts (text : CodePoints) :
    nonempty ((tok.basicTokens db text).map WordPieceTokenizer.Word.text) =
      (stretches db text).flatMap (scannedIn db tok) := by
  have raws : (piecesFrom db text.length 0 text).map Piece.raw = runs db text :=
    raw_piecesFrom le_rfl
  have texts : (tok.basicTokens db text).map WordPieceTokenizer.Word.text =
      (runs db text).map (tok.normalize db) := by
    rw [WordPieceTokenizer.basicTokens_eq, ← raws, List.map_map, List.map_map]
    rfl
  rw [texts, runs_eq_flatMap, List.map_flatMap, nonempty_flatMap]
  rfl

theorem referenceWords_eq (text : CodePoints) :
    referenceWords db tok text = (stretches db text).flatMap (referenceIn db tok) := by
  rw [referenceWords, nonempty_flatMap, referenceTokens_eq, List.flatMap_map]
  rfl

variable {db} in
/-- Between the whitespace of a text, what is kept is not skipped. -/
theorem isSkipped_of_mem_stretches {text stretch : CodePoints}
    (member : stretch ∈ stretches db text) {c : CodePoint} (inside : c ∈ stretch)
    (kept : isKept db c = true) : isSkipped db c = false := by
  have white := drops_of_mem_segments stretch member c inside
  rw [kept, Bool.and_true] at white
  have control : isControl db c = false := by
    simp only [isKept, isDeleted, Bool.not_eq_true', decide_eq_false_iff_not, not_or] at kept
    exact Bool.eq_false_iff.mpr kept.2.2
  rw [isSkipped, white, control]
  rfl

theorem length_flatten_scannedIn (stretch : CodePoints) :
    (scannedIn db tok stretch).flatten.length =
      ((stretch.filter fun c => !isSkipped db c).flatMap (image db tok)).length := by
  have lengths : ∀ raws : List CodePoints, (raws.map (tok.normalize db)).flatten.length =
      (raws.flatten.flatMap (image db tok)).length := by
    intro raws
    induction raws with
    | nil => rfl
    | cons raw rest ih =>
      rw [List.map_cons, List.flatten_cons, List.length_append, ih, length_normalize,
        List.flatten_cons, List.flatMap_append, List.length_append]
  rw [scannedIn, nonempty_flatten, lengths, runs, flatten_chunks]

theorem length_flatten_referenceIn (stretch : CodePoints) :
    (referenceIn db tok stretch).flatten.length =
      ((stretch.filter (isKept db)).flatMap (image db tok)).length := by
  rw [referenceIn, flatten_chunks, ← length_normalize]
  simp

theorem kept_eq_filter {text stretch : CodePoints} (member : stretch ∈ stretches db text) :
    stretch.filter (isKept db) = (stretch.filter fun c => !isSkipped db c).filter (isKept db) := by
  rw [List.filter_filter]
  refine List.filter_congr fun c inside => ?_
  cases kept : isKept db c with
  | true => rw [isSkipped_of_mem_stretches member inside kept]; rfl
  | false => rfl

/-- The scan deletes nothing that the reference keeps. -/
theorem length_referenceIn_le {text stretch : CodePoints} (member : stretch ∈ stretches db text) :
    (referenceIn db tok stretch).flatten.length ≤ (scannedIn db tok stretch).flatten.length := by
  rw [length_flatten_referenceIn, length_flatten_scannedIn, kept_eq_filter db member]
  exact length_flatMap_filter_le _ _ _

/-- A run whose characters normalize to no punctuation. -/
def PlainRun (run : CodePoints) : Prop :=
  ∀ c ∈ run, Plain (isPunctuation db) (image db tok c)

/-- The runs that normalize to something. -/
def visible (stretch : CodePoints) : List CodePoints :=
  (runs db stretch).filter fun run => !(run.flatMap (image db tok)).isEmpty

/-- A stretch whose characters and runs the normalization leaves what they are. -/
structure Faithful (stretch : CodePoints) : Prop where
  known : replacement ∉ stretch
  /-- A capital sigma ends a run exactly when it ends a word of the stretch. -/
  finals : tok.doLowerCase = true → db.FinalsKept (runs db stretch)
  /-- No punctuation comes out of a longer run. -/
  classed : ∀ run ∈ runs db stretch,
    PlainRun db tok run ∨ (run.flatMap (image db tok)).length ≤ 1
  /-- Two plain runs are never next to each other, be it with deleted characters between. -/
  apart : (visible db tok stretch).IsChain fun first second =>
    ¬ (PlainRun db tok first ∧ PlainRun db tok second)

theorem isPunctuation_sigma : isPunctuation db smallSigma = false := by
  rw [isPunctuation, if_neg (by decide), db.sigma_ll]
  rfl

theorem isPunctuation_finalSigma : isPunctuation db smallFinalSigma = false := by
  rw [isPunctuation, if_neg (by decide), db.finalSigma_ll]
  rfl

theorem plainRun_iff (run : CodePoints) :
    PlainRun db tok run ↔ Plain (isPunctuation db) (tok.normalize db run) := by
  have alike : isPunctuation db smallFinalSigma = isPunctuation db smallSigma := by
    rw [isPunctuation_sigma, isPunctuation_finalSigma]
  have counts := countP_normalize db tok alike run
  have plain : ∀ text, Plain (isPunctuation db) text ↔ text.countP (isPunctuation db) = 0 := by
    simp [Plain, List.countP_eq_zero]
  rw [plain, counts, List.sum_eq_zero_iff_forall_eq_nat]
  simp [PlainRun, plain]

theorem classed_iff (run : CodePoints) :
    PlainRun db tok run ∨ (run.flatMap (image db tok)).length ≤ 1 ↔
      Plain (isPunctuation db) (tok.normalize db run) ∨
        ∃ mark, isPunctuation db mark = true ∧ tok.normalize db run = [mark] := by
  rw [plainRun_iff, ← length_normalize]
  constructor
  · rintro (plain | short)
    · exact .inl plain
    · cases same : tok.normalize db run with
      | nil => exact .inl (by simp [Plain])
      | cons c rest =>
        rw [same, List.length_cons] at short
        obtain rfl : rest = [] := List.eq_nil_of_length_eq_zero (by omega)
        cases mark : isPunctuation db c with
        | true => exact .inr ⟨c, mark, rfl⟩
        | false => exact .inl (by simpa [Plain] using mark)
  · rintro (plain | ⟨mark, _, same⟩)
    · exact .inl plain
    · exact .inr (by rw [same]; exact le_rfl)

theorem scannedIn_eq_map (stretch : CodePoints) :
    scannedIn db tok stretch = (visible db tok stretch).map (tok.normalize db) := by
  rw [scannedIn, nonempty, List.filter_map, visible]
  congr 1
  refine List.filter_congr fun run _ => ?_
  have long := length_normalize db tok run
  cases left : tok.normalize db run <;> cases right : run.flatMap (image db tok) <;>
    simp_all

theorem separated_iff (stretch : CodePoints) :
    Separated (isPunctuation db) (scannedIn db tok stretch) ↔
      (∀ run ∈ runs db stretch, PlainRun db tok run ∨ (run.flatMap (image db tok)).length ≤ 1) ∧
        (visible db tok stretch).IsChain fun first second =>
          ¬ (PlainRun db tok first ∧ PlainRun db tok second) := by
  have chain : (scannedIn db tok stretch).IsChain (fun first second =>
      ¬ (Plain (isPunctuation db) first ∧ Plain (isPunctuation db) second)) ↔
      (visible db tok stretch).IsChain fun first second =>
        ¬ (PlainRun db tok first ∧ PlainRun db tok second) := by
    rw [scannedIn_eq_map, List.isChain_map]
    simp only [plainRun_iff]
  simp only [classed_iff]
  constructor
  · rintro ⟨classed, apart⟩
    refine ⟨fun run inside => ?_, chain.mp apart⟩
    by_cases empty : tok.normalize db run = []
    · exact .inl (by simp [Plain, empty])
    · exact classed _ (List.mem_filter.mpr ⟨List.mem_map_of_mem inside, by simpa using empty⟩)
  · rintro ⟨classed, apart⟩
    refine ⟨fun word member => ?_, chain.mpr apart⟩
    obtain ⟨run, inside, rfl⟩ := List.mem_map.mp (List.mem_of_mem_filter member)
    exact classed run inside

theorem combining_of_isPunctuation {c : CodePoint} (mark : isPunctuation db c = true) :
    db.combining c = 0 := by
  apply db.starter
  unfold isPunctuation at mark
  split at mark
  · rename_i range
    refine db.ascii_not_mark c ?_
    rcases range with ⟨_, last⟩ | ⟨_, last⟩ | ⟨_, last⟩ | ⟨_, last⟩ <;>
      exact Fin.lt_of_le_of_lt last (by decide)
  · cases kind : db.category c <;> simp_all [Category.isPunctuation, Category.isMark]

/-- Separated words are stripped one by one. -/
theorem stripMarks_of_separated {texts : List CodePoints}
    (separated : Separated (isPunctuation db) (nonempty (texts.map db.stripMarks))) :
    db.stripMarks texts.flatten = texts.flatMap db.stripMarks := by
  refine CharacterData.stripMarks_flatten ?_
  induction texts with
  | nil => simp
  | cons text later ih =>
    rw [List.map_cons] at separated
    refine forall_split_cons.mpr ?_
    cases stripped : db.stripMarks text with
    | nil =>
      rw [stripped, nonempty_cons_nil] at separated
      exact ⟨.inl (by simp), ih separated⟩
    | cons c rest =>
      rw [stripped, nonempty_cons_cons] at separated
      refine ⟨?_, ih separated.tail⟩
      rcases separated.classed (c :: rest) List.mem_cons_self with plain | ⟨mark, here, single⟩
      · right
        have marked := separated.atMark plain
        rw [nonempty_flatten, ← List.flatMap_def] at marked
        exact fun d first => combining_of_isPunctuation db ((marked d first).resolve_left (by simp))
      · left
        rw [single]
        simpa using combining_of_isPunctuation db here

theorem isSkipped_replacement : isSkipped db replacement = false := by
  have white : isWhitespace db replacement = false := by
    rw [isWhitespace, if_neg (by decide), db.replacement_so]
    rfl
  have control : isControl db replacement = false := by
    rw [isControl, if_neg (by decide), db.replacement_so]
    rfl
  rw [isSkipped, white, control]
  rfl

theorem image_replacement : image db tok replacement = [replacement] := by
  have lowered : db.lower [replacement] = [replacement] := by
    rw [CharacterData.lower, CharacterData.lowerFrom, if_neg (by decide), db.lowerMap_replacement]
    rfl
  have stripped : db.stripMarks [replacement] = [replacement] := by
    simp [CharacterData.stripMarks, CharacterData.nfd, db.decompose_replacement,
      CharacterData.canonicalOrder, CharacterData.insertMark, db.replacement_so]
  rw [image, WordPieceTokenizer.normalize]
  split <;> split <;> simp [lowered, stripped]

theorem flatten_runs (stretch : CodePoints) :
    (runs db stretch).flatten = stretch.filter fun c => !isSkipped db c := flatten_chunks ..

/-- The scan keeps the replacement character, so that no other text is as long. -/
theorem known_of_joined {text stretch : CodePoints} (member : stretch ∈ stretches db text)
    (joined : tok.normalize db (stretch.filter (isKept db)) =
      (runs db stretch).flatMap (tok.normalize db)) : replacement ∉ stretch := by
  intro inside
  have seen : replacement ∈ stretch.filter fun c => !isSkipped db c :=
    List.mem_filter.mpr ⟨inside, by rw [isSkipped_replacement]; rfl⟩
  have left : isKept db replacement = false := by simp [isKept, isDeleted]
  have some : image db tok replacement ≠ [] := by simp [image_replacement]
  have less := length_flatMap_filter_lt seen left some
  rw [← kept_eq_filter db member, ← length_flatten_referenceIn, ← length_flatten_scannedIn,
    referenceIn, flatten_chunks, scannedIn, nonempty_flatten, ← List.flatMap_def, ← joined] at less
  simp at less

theorem kept_of_known {text stretch : CodePoints} (member : stretch ∈ stretches db text)
    (known : replacement ∉ stretch) : stretch.filter (isKept db) = (runs db stretch).flatten := by
  rw [flatten_runs]
  refine List.filter_congr fun c inside => ?_
  cases kept : isKept db c with
  | true => rw [isSkipped_of_mem_stretches member inside kept]; rfl
  | false =>
    have other : c ≠ replacement := fun same => known (same ▸ inside)
    have control : isControl db c = true := by
      simp only [isKept, isDeleted, Bool.not_eq_false', decide_eq_true_eq, other, false_or] at kept
      rcases kept with rfl | control
      · rw [isControl, if_neg (by decide), db.nul_cc]
        rfl
      · exact control
    rw [isSkipped, control, Bool.or_true]
    rfl

/-- Between separated words only the sigmas can tell the whole from its parts. -/
theorem normalize_flatten_iff {raws : List CodePoints}
    (separated : Separated (isPunctuation db) (nonempty (raws.map (tok.normalize db)))) :
    tok.normalize db raws.flatten = raws.flatMap (tok.normalize db) ↔
      (tok.doLowerCase = true → db.FinalsKept raws) := by
  unfold WordPieceTokenizer.normalize at separated ⊢
  cases lowers : tok.doLowerCase with
  | true =>
    rw [lowers] at separated
    cases strips : tok.stripAccents with
    | true =>
      rw [strips] at separated
      have apart : db.stripMarks (raws.map db.lower).flatten =
          (raws.map db.lower).flatMap db.stripMarks :=
        stripMarks_of_separated db (by simpa [Function.comp_def] using separated)
      simpa using CharacterData.stripMarks_lower_flatten_iff apart
    | false => simpa using CharacterData.lower_flatten_iff raws
  | false =>
    rw [lowers] at separated
    cases strips : tok.stripAccents with
    | true =>
      rw [strips] at separated
      simpa using stripMarks_of_separated db (by simpa using separated)
    | false => simp

theorem joined_iff {text stretch : CodePoints} (member : stretch ∈ stretches db text)
    (separated : Separated (isPunctuation db) (scannedIn db tok stretch)) :
    tok.normalize db (stretch.filter (isKept db)) = (runs db stretch).flatMap (tok.normalize db) ↔
      replacement ∉ stretch ∧ (tok.doLowerCase = true → db.FinalsKept (runs db stretch)) := by
  rw [← normalize_flatten_iff db tok separated]
  constructor
  · intro joined
    have known := known_of_joined db tok member joined
    rw [kept_of_known db member known] at joined
    exact ⟨known, joined⟩
  · rintro ⟨known, joined⟩
    rw [kept_of_known db member known]
    exact joined

theorem faithful_iff {text stretch : CodePoints} (member : stretch ∈ stretches db text) :
    Faithful db tok stretch ↔ scannedIn db tok stretch = referenceIn db tok stretch := by
  have some : ∀ word ∈ scannedIn db tok stretch, word ≠ [] := fun _ => ne_nil_of_mem_nonempty
  have joined : (scannedIn db tok stretch).flatten =
      (runs db stretch).flatMap (tok.normalize db) := nonempty_flatten _
  rw [eq_comm, referenceIn, chunks_eq_iff some, joined]
  constructor
  · rintro ⟨known, finals, classed, apart⟩
    have separated := (separated_iff db tok stretch).mpr ⟨classed, apart⟩
    exact ⟨(joined_iff db tok member separated).mpr ⟨known, finals⟩, separated⟩
  · rintro ⟨whole, separated⟩
    obtain ⟨known, finals⟩ := (joined_iff db tok member separated).mp whole
    obtain ⟨classed, apart⟩ := (separated_iff db tok stretch).mp separated
    exact ⟨known, finals, classed, apart⟩

/-- For every text and all flags, the scan finds the words of the reference exactly when every
stretch is faithful. -/
theorem reference_agrees_iff (text : CodePoints) :
    Agrees db tok text ↔ ∀ stretch ∈ stretches db text, Faithful db tok stretch := by
  rw [Agrees, basicTokens_texts, referenceWords_eq, flatMap_eq_iff]
  · exact forall₂_congr fun stretch member => (faithful_iff db tok member).symm
  · exact fun _ _ => ne_nil_of_mem_nonempty
  · exact fun _ _ => ne_nil_of_mem_nonempty
  · exact fun stretch member => length_referenceIn_le db tok member

end Words

/-- A soft hyphen inside a word: the reference deletes it, the scan breaks the word. -/
theorem soft_hyphen_breaks : ¬ Agrees .ascii WordPieceTokenizer.greetingTokenizer
    (points "a" ++ [0xAD] ++ points "b") := by decide +kernel

end NewsAggregator.Tokenize
