import NewsAggregator.Foundation.LongestMatch
import NewsAggregator.Gazetteer.Load

/-! The gazetteer matcher against the reference scan: text and phrases tokenized by one
rule, and at each position an entry with the most tokens. -/

namespace NewsAggregator

open Foundation

/-- `_WORD.findall`. -/
def tokensOf (text : String) : List String := findRuns isToken text.toList

/-- The entries by the tokens of their phrases. -/
def Gazetteer.patterns (gaz : Gazetteer) : List (List String × GazEntry) :=
  gaz.entries.map fun entry => (tokensOf entry.1, entry.2)

/-- The entries `match` hits, with their places among the tokens. -/
def Gazetteer.occurrences (py : Python) (gaz : Gazetteer) (text : String) :
    List (Hit GazEntry) :=
  scanWith (gaz.longest py) (tokensOf (py.lower text)).length 0 (tokensOf (py.lower text))

/-- `match` returns, and what it hits is what the reference scan hits. -/
structure Gazetteer.Exact (py : Python) (gaz : Gazetteer) (text : String) : Prop where
  returns : ∃ entities, gaz.matchText py text = some entities ∧
    (gaz.occurrences py text).mapM (fun hit => hit.value.toEntity) = some entities
  scan : Scan gaz.patterns 0 (tokensOf (py.lower text)) (gaz.occurrences py text)

def GazEntry.Valid (entry : GazEntry) : Prop := entry.toEntity.isSome

/-- The tokens, joined by single blanks, are the key of an entry that validates. -/
def Gazetteer.Spells (gaz : Gazetteer) (tokens : List String) : Prop :=
  ∃ entry, gaz.entries.lookup (" ".intercalate tokens) = some entry ∧ entry.Valid

/-- Wherever the reference scan comes to an entry, the longest tokens there are spelled. -/
def Gazetteer.Readable (py : Python) (gaz : Gazetteer) (text : String) : Prop :=
  ∀ rest pattern, Stands gaz.patterns (tokensOf (py.lower text)) rest →
    Longest gaz.patterns rest pattern → gaz.Spells pattern.1

/-- Every entry whose phrase has a token is spelled by its tokens. -/
def Gazetteer.Spelled (gaz : Gazetteer) : Prop :=
  ∀ entry ∈ gaz.entries, tokensOf entry.1 ≠ [] → gaz.Spells (tokensOf entry.1)

/-- What the matcher relies on in `str.split` and `str.lower`: a blank is white space, a
character of a token is none, and words of them are in lower case. -/
structure Python.Reads (py : Python) : Prop where
  blank : py.isSpace ' ' = true
  solid : ∀ c, isToken c = true → py.isSpace c = false
  lower : ∀ text, (∀ c ∈ text.toList, isToken c = true ∨ c = ' ') → py.lower text = text

section Tokens

theorem tokensOf_intercalate {tokens : List String} (runs : ∀ word ∈ tokens, IsRun isToken word) :
    tokensOf (" ".intercalate tokens) = tokens :=
  findRuns_intercalate ' ' (by decide) runs

theorem Python.Reads.words_intercalate {py : Python} (reads : py.Reads) {tokens : List String}
    (runs : ∀ word ∈ tokens, IsRun isToken word) :
    words py (" ".intercalate tokens) = tokens := by
  refine findRuns_intercalate ' ' (by simp [reads.blank]) fun word member => ?_
  refine ⟨(runs word member).1, fun c inside => ?_⟩
  simp [reads.solid c ((runs word member).2 c inside)]

theorem tokensOf_runs (text : String) : ∀ word ∈ tokensOf text, IsRun isToken word :=
  mem_findRuns

end Tokens

section Longest

variable {py : Python} {gaz : Gazetteer}

theorem mem_patterns {pattern : List String × GazEntry} :
    pattern ∈ gaz.patterns ↔
      ∃ key, (key, pattern.2) ∈ gaz.entries ∧ tokensOf key = pattern.1 := by
  obtain ⟨tokens, entry⟩ := pattern
  simp [Gazetteer.patterns]

theorem mem_of_lookup {key : String} {entry : GazEntry}
    (found : gaz.entries.lookup key = some entry) : (key, entry) ∈ gaz.entries := by
  obtain ⟨before, after, split, _⟩ := List.lookup_eq_some_iff.mp found
  rw [split]
  exact List.mem_append_right _ List.mem_cons_self

/-- A key made of tokens is within `_max_words`. -/
theorem Python.Reads.length_le_maxWords (reads : py.Reads) {tokens : List String}
    (runs : ∀ word ∈ tokens, IsRun isToken word) {entry : GazEntry}
    (member : (" ".intercalate tokens, entry) ∈ gaz.entries) :
    tokens.length ≤ gaz.maxWords py := by
  have counted : tokens.length ∈ gaz.entries.map fun entry => (words py entry.1).length :=
    List.mem_map.mpr ⟨_, member, congrArg List.length (reads.words_intercalate runs)⟩
  obtain ⟨most, largest⟩ := Option.isSome_iff_exists.mp (List.isSome_max?_of_mem counted)
  rw [Gazetteer.maxWords, largest]
  exact (List.max?_eq_some_iff.mp largest).2 _ counted

theorem longest_eq_some {tokens : List String} {entry : GazEntry} {length : ℕ} :
    gaz.longest py tokens = some (entry, length) ↔
      0 < length ∧ length ≤ min (gaz.maxWords py) tokens.length ∧
        gaz.entries.lookup (" ".intercalate (tokens.take length)) = some entry ∧
        ∀ other, length < other → other ≤ min (gaz.maxWords py) tokens.length →
          gaz.entries.lookup (" ".intercalate (tokens.take other)) = none := by
  cases length with
  | zero =>
    simp only [Nat.lt_irrefl, false_and, iff_false]
    intro found
    obtain ⟨index, _, same⟩ := List.exists_of_findSome?_eq_some found
    obtain ⟨value, _, pair⟩ := Option.map_eq_some_iff.mp same
    exact absurd (congrArg Prod.snd pair) (Nat.succ_ne_zero index)
  | succ index =>
    refine findSome_down.trans ?_
    constructor
    · rintro ⟨below, here, above⟩
      refine ⟨Nat.succ_pos index, below, here, fun other more within => ?_⟩
      have first := above (other - 1) (by omega) (by omega)
      rwa [Nat.sub_add_cancel (by omega)] at first
    · rintro ⟨_, below, here, above⟩
      exact ⟨below, here, fun other more within => above (other + 1) (by omega) within⟩

theorem longest_eq_none {tokens : List String} :
    gaz.longest py tokens = none ↔ ∀ length, 0 < length →
      length ≤ min (gaz.maxWords py) tokens.length →
        gaz.entries.lookup (" ".intercalate (tokens.take length)) = none := by
  simp only [Gazetteer.longest, List.findSome?_eq_none_iff, List.mem_reverse, List.mem_range,
    Option.map_eq_none_iff]
  constructor
  · intro none length positive within
    have first := none (length - 1) (by omega)
    rwa [Nat.sub_add_cancel (by omega)] at first
  · exact fun none index within => none (index + 1) (Nat.succ_pos index) within

/-- The window of the loop reaches the longest tokens, if they are spelled. -/
theorem window_of_spells (reads : py.Reads) {rest : List String}
    (runs : ∀ word ∈ rest, IsRun isToken word) {longest : List String × GazEntry}
    (top : Longest gaz.patterns rest longest) (spells : gaz.Spells longest.1) :
    longest.1.length ≤ min (gaz.maxWords py) rest.length ∧
      ∃ entry, gaz.entries.lookup (" ".intercalate (rest.take longest.1.length)) = some entry ∧
        entry.Valid := by
  obtain ⟨entry, found, valid⟩ := spells
  have inside : ∀ word ∈ longest.1, IsRun isToken word :=
    fun word member => runs word (top.1.2.2.subset member)
  have short := reads.length_le_maxWords inside (mem_of_lookup found)
  exact ⟨le_min short top.1.2.2.length_le, entry, by rw [top.take_eq, found], valid⟩

theorem agrees_of_none (reads : py.Reads) {rest : List String}
    (runs : ∀ word ∈ rest, IsRun isToken word) (answer : gaz.longest py rest = none) :
    Agrees gaz.patterns (gaz.longest py) GazEntry.Valid rest ↔
      ∀ pattern, Longest gaz.patterns rest pattern → gaz.Spells pattern.1 := by
  rw [Agrees, answer]
  constructor
  · exact fun absent pattern longest => absurd longest.1 (absent pattern)
  · intro spells pattern starts
    obtain ⟨longest, top⟩ := exists_longest starts
    obtain ⟨within, entry, found, _⟩ := window_of_spells reads runs top (spells longest top)
    have missed := longest_eq_none.mp answer longest.1.length top.1.length_pos within
    rw [found] at missed
    cases missed

theorem agrees_of_some (reads : py.Reads) {rest : List String}
    (runs : ∀ word ∈ rest, IsRun isToken word) {entry : GazEntry} {length : ℕ}
    (answer : gaz.longest py rest = some (entry, length)) :
    Agrees gaz.patterns (gaz.longest py) GazEntry.Valid rest ↔
      ∀ pattern, Longest gaz.patterns rest pattern → gaz.Spells pattern.1 := by
  rw [Agrees, answer]
  obtain ⟨positive, within, found, above⟩ := longest_eq_some.mp answer
  constructor
  · rintro ⟨⟨pattern, longest, sized, same⟩, valid⟩ other top
    have cut : rest.take length = other.1 := by
      rw [← sized, ← top.length_eq longest, top.take_eq]
    exact ⟨entry, cut ▸ found, valid⟩
  · intro spells
    have sized : (rest.take length).length = length :=
      List.length_take_of_le (within.trans (min_le_right _ _))
    have starts : Starts gaz.patterns rest (rest.take length, entry) := by
      have read : tokensOf (" ".intercalate (rest.take length)) = rest.take length :=
        tokensOf_intercalate fun word member => runs word (List.mem_of_mem_take member)
      refine ⟨mem_patterns.mpr ⟨_, mem_of_lookup found, read⟩, ?_, List.take_prefix length rest⟩
      exact List.ne_nil_of_length_pos (sized.symm ▸ positive)
    obtain ⟨longest, top⟩ := exists_longest starts
    obtain ⟨reached, best, spelled, valid⟩ := window_of_spells reads runs top (spells longest top)
    -- nothing longer than the answer was found in the window
    have exact' : longest.1.length = length := by
      have least : length ≤ longest.1.length := sized ▸ top.2 _ starts
      by_contra other
      have missed := above longest.1.length (by omega) reached
      rw [spelled] at missed
      cases missed
    have same : best = entry := Option.some.inj (spelled.symm.trans (exact' ▸ found))
    refine ⟨⟨(rest.take length, entry), ⟨starts, fun other begins => ?_⟩, sized, rfl⟩, same ▸ valid⟩
    exact (top.2 other begins).trans (exact'.trans sized.symm).le

/-- The matcher answers right at a place exactly when the longest tokens there, if any, are
spelled. -/
theorem agrees_iff (reads : py.Reads) {rest : List String}
    (runs : ∀ word ∈ rest, IsRun isToken word) :
    Agrees gaz.patterns (gaz.longest py) GazEntry.Valid rest ↔
      ∀ pattern, Longest gaz.patterns rest pattern → gaz.Spells pattern.1 := by
  cases answer : gaz.longest py rest with
  | none => exact agrees_of_none reads runs answer
  | some found => exact agrees_of_some reads runs answer

theorem stands_suffix {patterns : List (List String × GazEntry)} {text rest : List String}
    (stands : Stands patterns text rest) : rest <:+ text := by
  induction stands with
  | here text => exact List.suffix_refl text
  | jump longest after ih => exact ih.trans (List.drop_suffix _ _)
  | advance absent after ih => exact ih.trans (List.suffix_cons _ _)

theorem guided_iff_readable (reads : py.Reads) (text : String) :
    Guided gaz.patterns (gaz.longest py) GazEntry.Valid (tokensOf (py.lower text)) ↔
      gaz.Readable py text := by
  have runs : ∀ {rest}, Stands gaz.patterns (tokensOf (py.lower text)) rest →
      ∀ word ∈ rest, IsRun isToken word :=
    fun stands word member => tokensOf_runs _ word ((stands_suffix stands).subset member)
  constructor
  · intro guided rest pattern stands longest
    have some : rest ≠ [] := by
      rintro rfl
      exact not_starts_nil _ longest.1
    exact (agrees_iff reads (runs stands)).mp (guided rest stands some) pattern longest
  · exact fun readable rest stands _ =>
      (agrees_iff reads (runs stands)).mpr fun pattern => readable rest pattern stands

end Longest

section Match

variable {py : Python} {gaz : Gazetteer}

/-- The outer loop raises where the first hit that does not validate is. -/
theorem scan_eq (turns start : ℕ) (tokens : List String) :
    gaz.scan py turns tokens =
      (scanWith (gaz.longest py) turns start tokens).mapM fun hit => hit.value.toEntity := by
  induction turns generalizing start tokens with
  | zero => simp [Gazetteer.scan, scanWith]
  | succ turns ih =>
    cases tokens with
    | nil => simp [Gazetteer.scan, scanWith]
    | cons token rest =>
      rw [Gazetteer.scan]
      cases answer : gaz.longest py (token :: rest) with
      | none => rw [scanWith_of_none answer]; exact ih (start + 1) rest
      | some match' =>
        obtain ⟨entry, length⟩ := match'
        rw [scanWith_of_some answer, List.mapM_cons]
        simp only [ih (start + length)]

theorem matchText_eq (text : String) :
    gaz.matchText py text = (gaz.occurrences py text).mapM fun hit => hit.value.toEntity :=
  scan_eq _ 0 _

theorem mapM_isSome_iff {α β : Type} {f : α → Option β} {values : List α} :
    (∃ results, values.mapM f = some results) ↔ ∀ value ∈ values, (f value).isSome := by
  induction values with
  | nil => simp
  | cons value rest ih =>
    rw [List.forall_mem_cons, ← ih, List.mapM_cons]
    cases f value <;> cases rest.mapM f <;> simp

theorem exact_iff_readable (reads : py.Reads) (gaz : Gazetteer) (text : String) :
    gaz.Exact py text ↔ gaz.Readable py text := by
  have scanned : (Scan gaz.patterns 0 (tokensOf (py.lower text)) (gaz.occurrences py text) ∧
      ∀ hit ∈ gaz.occurrences py text, hit.value.Valid) ↔
        Guided gaz.patterns (gaz.longest py) GazEntry.Valid (tokensOf (py.lower text)) :=
    scanWith_iff le_rfl
  rw [← guided_iff_readable reads, ← scanned]
  constructor
  · rintro ⟨⟨entities, _, mapped⟩, scan⟩
    exact ⟨scan, mapM_isSome_iff.mp ⟨entities, mapped⟩⟩
  · rintro ⟨scan, valid⟩
    obtain ⟨entities, mapped⟩ := mapM_isSome_iff.mpr valid
    exact ⟨⟨entities, (matchText_eq text).trans mapped, mapped⟩, scan⟩

/-- A text of its own tokens brings the scan right to an entry. -/
theorem readable_iff_spelled (reads : py.Reads) (gaz : Gazetteer) :
    (∀ text, gaz.Readable py text) ↔ gaz.Spelled := by
  constructor
  · intro readable entry member some
    have runs := tokensOf_runs entry.1
    have kept : py.lower (" ".intercalate (tokensOf entry.1)) =
        " ".intercalate (tokensOf entry.1) :=
      reads.lower _ (mem_intercalate_runs ' ' runs)
    have tokens : tokensOf (py.lower (" ".intercalate (tokensOf entry.1))) = tokensOf entry.1 := by
      rw [kept, tokensOf_intercalate runs]
    have starts : Starts gaz.patterns (tokensOf entry.1) (tokensOf entry.1, entry.2) :=
      ⟨mem_patterns.mpr ⟨entry.1, member, rfl⟩, some, List.prefix_refl _⟩
    have stands : Stands gaz.patterns
        (tokensOf (py.lower (" ".intercalate (tokensOf entry.1)))) (tokensOf entry.1) := by
      rw [tokens]
      exact .here _
    exact readable _ _ _ stands ⟨starts, fun other begins => begins.2.2.length_le⟩
  · intro spelled text rest pattern stands longest
    obtain ⟨key, member, tokens⟩ := mem_patterns.mp longest.1.1
    have some : tokensOf key ≠ [] := fun empty => longest.1.2.1 (tokens.symm.trans empty)
    rw [← tokens]
    exact spelled (key, pattern.2) member some

end Match

/-- On a text the matcher finds what the reference scan finds exactly when the scan comes to
no entry that is spelled otherwise than by its tokens; on all texts, when there is none. -/
theorem match_exact_iff (py : Python) (reads : py.Reads) (gaz : Gazetteer) :
    (∀ text, gaz.Exact py text ↔ gaz.Readable py text) ∧
      ((∀ text, gaz.Exact py text) ↔ gaz.Spelled) := by
  refine ⟨exact_iff_readable reads gaz, ?_⟩
  rw [← readable_iff_spelled reads]
  exact forall_congr' (exact_iff_readable reads gaz)

theorem toLower_of_token {c : Char} (token : isToken c = true) : c.toLower = c := by
  refine dif_neg ?_
  rintro ⟨above, below⟩
  have ranges := of_decide_eq_true token
  simp only [Char.le_def, ge_iff_le, UInt32.le_iff_toNat_le, seval] at ranges above below
  omega

theorem Python.plain_reads : Python.plain.Reads where
  blank := by decide
  solid c token := by
    refine Bool.eq_false_iff.mpr fun white => ?_
    simp only [Python.plain, Char.isWhitespace, Bool.or_eq_true, decide_eq_true_eq] at white
    rcases white with ((rfl | rfl) | rfl) | rfl <;> exact absurd token (by decide)
  lower text plain := by
    have same : text.toList.map Char.toLower = text.toList := by
      refine (List.map_congr_left fun c inside => ?_).trans (List.map_id _)
      rcases plain c inside with token | rfl
      · exact toLower_of_token token
      · rfl
    exact (congrArg String.ofList same).trans String.ofList_toList

/-- A file with one row. -/
def capitalFile : List (Option GazRow) := [some { phrase := "D.C.", type := some "place" }]

/-- Its tokens begin the text, and the matcher looks them up under a key it does not have. -/
theorem abbreviation_missed : ¬ (loadGazetteer .plain capitalFile).Exact .plain "D.C." := by
  rintro ⟨_, scan⟩
  have missed : (loadGazetteer .plain capitalFile).occurrences .plain "D.C." = [] :=
    List.length_eq_zero_iff.mp (by decide +kernel)
  have tokens : tokensOf (Python.plain.lower "D.C.") = ["d", "c"] := by decide +kernel
  have loaded : ["d", "c"] ∈ (loadGazetteer .plain capitalFile).patterns.map Prod.fst := by
    decide +kernel
  obtain ⟨pattern, member, same⟩ := List.mem_map.mp loaded
  rw [missed, tokens] at scan
  cases scan with
  | advance absent _ =>
    exact absent pattern ⟨member, by simp [same], same ▸ List.prefix_refl _⟩

theorem seed_spelled : Gazetteer.seed.Spelled := by
  have checked : Gazetteer.seed.entries.all fun entry =>
      (Gazetteer.seed.entries.lookup (" ".intercalate (tokensOf entry.1))).any fun found =>
        found.toEntity.isSome := by decide +kernel
  intro entry member _
  have looked := List.all_eq_true.mp checked entry member
  cases found : Gazetteer.seed.entries.lookup (" ".intercalate (tokensOf entry.1)) with
  | none => rw [found] at looked; cases looked
  | some first => rw [found] at looked; exact ⟨first, found, looked⟩

/-- The seed is matched exactly, as on this text. -/
theorem seed_exact : Gazetteer.seed.Exact .plain "From Kyiv to the United Nations, New York" :=
  (match_exact_iff .plain Python.plain_reads .seed).2.mpr seed_spelled _

end NewsAggregator
