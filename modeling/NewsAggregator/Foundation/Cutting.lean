import Mathlib.Algebra.Order.Group.Nat
import Mathlib.Data.List.Chain
import Mathlib.Data.List.Flatten
import Mathlib.Data.List.TakeWhile
import Mathlib.Tactic.Linarith

/-! A text cut at marks: some are dropped, others stand alone, and the runs between them
are kept whole. -/

namespace Foundation

variable {α : Type*}

/-- The runs and the lone marks, with an empty run wherever two marks meet. -/
def segments (drops alone : α → Bool) : List α → List (List α)
  | [] => [[]]
  | c :: rest =>
    if drops c then [] :: segments drops alone rest
    else if alone c then [] :: [c] :: segments drops alone rest
    else (segments drops alone rest).modifyHead (c :: ·)

def nonempty (words : List (List α)) : List (List α) := words.filter fun word => !word.isEmpty

/-- The runs and the lone marks that are there. -/
def chunks (drops alone : α → Bool) (text : List α) : List (List α) :=
  nonempty (segments drops alone text)

section Segments

variable {drops alone : α → Bool} {c : α} {rest : List α}

theorem segments_drop (dropped : drops c = true) :
    segments drops alone (c :: rest) = [] :: segments drops alone rest := if_pos dropped

theorem segments_alone (kept : drops c = false) (single : alone c = true) :
    segments drops alone (c :: rest) = [] :: [c] :: segments drops alone rest := by
  rw [segments, if_neg (Bool.eq_false_iff.mp kept), if_pos single]

theorem segments_run (kept : drops c = false) (run : alone c = false) :
    segments drops alone (c :: rest) = (segments drops alone rest).modifyHead (c :: ·) := by
  rw [segments, if_neg (Bool.eq_false_iff.mp kept), if_neg (Bool.eq_false_iff.mp run)]

/-- There is always a first segment, be it empty. -/
theorem exists_segments (drops alone : α → Bool) (text : List α) :
    ∃ first later, segments drops alone text = first :: later := by
  induction text with
  | nil => exact ⟨[], [], rfl⟩
  | cons c rest ih =>
    obtain ⟨first, later, same⟩ := ih
    cases dropped : drops c with
    | true => exact ⟨[], _, segments_drop dropped⟩
    | false =>
      cases single : alone c with
      | true => exact ⟨[], _, segments_alone dropped single⟩
      | false => exact ⟨c :: first, later, by rw [segments_run dropped single, same]; rfl⟩

/-- Only the characters of the text are asked what they are. -/
theorem segments_congr {drops' alone' : α → Bool} {text : List α}
    (same : ∀ c ∈ text, drops c = drops' c ∧ alone c = alone' c) :
    segments drops alone text = segments drops' alone' text := by
  induction text with
  | nil => rfl
  | cons c rest ih =>
    obtain ⟨dropped, single⟩ := same c List.mem_cons_self
    rw [segments, segments, dropped, single,
      ih fun other member => same other (List.mem_cons_of_mem c member)]

@[simp] theorem nonempty_nil : nonempty ([] : List (List α)) = [] := rfl

@[simp] theorem nonempty_cons_nil (words : List (List α)) :
    nonempty ([] :: words) = nonempty words := rfl

@[simp] theorem nonempty_cons_cons (word : List α) (words : List (List α)) :
    nonempty ((c :: word) :: words) = (c :: word) :: nonempty words := rfl

theorem nonempty_append (first second : List (List α)) :
    nonempty (first ++ second) = nonempty first ++ nonempty second := List.filter_append ..

theorem nonempty_flatMap {β : Type*} (parts : List β) (f : β → List (List α)) :
    nonempty (parts.flatMap f) = parts.flatMap fun part => nonempty (f part) :=
  List.filter_flatMap

theorem nonempty_flatten (words : List (List α)) : (nonempty words).flatten = words.flatten := by
  induction words with
  | nil => rfl
  | cons word rest ih =>
    cases word with
    | nil => exact ih
    | cons c word => rw [nonempty_cons_cons, List.flatten_cons, ih, List.flatten_cons]

theorem ne_nil_of_mem_nonempty {words : List (List α)} {word : List α}
    (member : word ∈ nonempty words) : word ≠ [] := by
  rintro rfl
  exact absurd (List.mem_filter.mp member).2 (by simp)

theorem nonempty_of_forall {words : List (List α)} (some : ∀ word ∈ words, word ≠ []) :
    nonempty words = words := by
  refine List.filter_eq_self.mpr fun word member => ?_
  simpa using some word member

end Segments

section Chunks

variable {drops alone : α → Bool} {c : α} {rest : List α}

@[simp] theorem chunks_nil : chunks drops alone [] = [] := rfl

theorem chunks_drop (dropped : drops c = true) :
    chunks drops alone (c :: rest) = chunks drops alone rest := by
  rw [chunks, segments_drop dropped, nonempty_cons_nil, chunks]

theorem chunks_alone (kept : drops c = false) (single : alone c = true) :
    chunks drops alone (c :: rest) = [c] :: chunks drops alone rest := by
  rw [chunks, segments_alone kept single, nonempty_cons_nil, nonempty_cons_cons, chunks]

/-- A text that is empty or starts with a mark. -/
def AtMark (drops alone : α → Bool) (text : List α) : Prop :=
  ∀ c ∈ text.head?, drops c = true ∨ alone c = true

theorem segments_atMark (mark : AtMark drops alone rest) :
    ∃ later, segments drops alone rest = [] :: later := by
  cases rest with
  | nil => exact ⟨[], rfl⟩
  | cons c rest =>
    cases dropped : drops c with
    | true => exact ⟨_, segments_drop dropped⟩
    | false =>
      have single : alone c = true := (mark c rfl).resolve_left (by simp [dropped])
      exact ⟨_, segments_alone dropped single⟩

theorem segments_append {front : List α} {later : List (List α)}
    (mark : segments drops alone rest = [] :: later) :
    segments drops alone (front ++ rest) = segments drops alone front ++ later := by
  induction front with
  | nil => exact mark
  | cons c front ih =>
    rw [List.cons_append]
    cases dropped : drops c with
    | true => rw [segments_drop dropped, segments_drop dropped, ih, List.cons_append]
    | false =>
      cases single : alone c with
      | true =>
        rw [segments_alone dropped single, segments_alone dropped single, ih, List.cons_append,
          List.cons_append]
      | false =>
        obtain ⟨first, more, same⟩ := exists_segments drops alone front
        rw [segments_run dropped single, segments_run dropped single, ih, same]
        rfl

/-- A text is cut in two at any of its marks. -/
theorem chunks_append (front : List α) (mark : AtMark drops alone rest) :
    chunks drops alone (front ++ rest) = chunks drops alone front ++ chunks drops alone rest := by
  obtain ⟨later, same⟩ := segments_atMark mark
  rw [chunks, segments_append same, nonempty_append, chunks, chunks, same, nonempty_cons_nil]

theorem chunks_plain {run : List α} (some : run ≠ [])
    (plain : ∀ c ∈ run, drops c = false ∧ alone c = false) : chunks drops alone run = [run] := by
  have whole : segments drops alone run = [run] := by
    clear some
    induction run with
    | nil => rfl
    | cons c run ih =>
      obtain ⟨kept, single⟩ := plain c List.mem_cons_self
      have later := ih fun other member => plain other (List.mem_cons_of_mem c member)
      rw [segments_run kept single, later]
      rfl
  rw [chunks, whole]
  exact nonempty_of_forall (by simpa using some)

/-- A run up to the next mark is a chunk. -/
theorem chunks_run {run : List α} (some : run ≠ [])
    (plain : ∀ c ∈ run, drops c = false ∧ alone c = false) (mark : AtMark drops alone rest) :
    chunks drops alone (run ++ rest) = run :: chunks drops alone rest := by
  rw [chunks_append run mark, chunks_plain some plain, List.singleton_append]

/-- A character that is no mark begins a run, and the text goes on behind it. -/
theorem chunks_takeWhile {word : α → Bool} (runs : ∀ c, word c = !(drops c || alone c))
    (here : word c = true) : chunks drops alone (c :: rest) =
      (c :: rest).takeWhile word :: chunks drops alone ((c :: rest).dropWhile word) := by
  have some : (c :: rest).takeWhile word ≠ [] := by
    rw [List.takeWhile_cons_of_pos here]
    exact List.cons_ne_nil c _
  have plain : ∀ d ∈ (c :: rest).takeWhile word, drops d = false ∧ alone d = false := by
    intro d member
    simpa [runs] using List.mem_takeWhile_imp member
  have mark : AtMark drops alone ((c :: rest).dropWhile word) := by
    intro d first
    have stops := List.head?_dropWhile_not word (c :: rest)
    rw [first] at stops
    cases skips : drops d with
    | true => exact .inl rfl
    | false => exact .inr (by simpa [runs, skips] using stops)
  rw [← chunks_run some plain mark, List.takeWhile_append_dropWhile]

section Coarser

variable {drops' alone' : α → Bool} (dropped : ∀ c, drops' c = true → drops c = true)
  (single : ∀ c, alone' c = true → drops c = true ∨ alone c = true)

include dropped single

/-- A text cut first at some of the marks, of which the first segment had begun before. -/
theorem chunks_append_segments (text : List α) :
    ∀ front first later, segments drops' alone' text = first :: later →
      chunks drops alone (front ++ text) =
        chunks drops alone (front ++ first) ++ later.flatMap (chunks drops alone) := by
  induction text with
  | nil =>
    rintro front first later same
    obtain ⟨rfl, rfl⟩ := List.cons.inj same
    simp
  | cons c rest ih =>
    intro front first later same
    obtain ⟨first', later', same'⟩ := exists_segments drops' alone' rest
    have after := ih [] first' later' same'
    rw [List.nil_append, List.nil_append, ← List.flatMap_cons] at after
    cases drop : drops' c with
    | true =>
      rw [segments_drop drop, same'] at same
      obtain ⟨rfl, rfl⟩ := List.cons.inj same
      have mark : AtMark drops alone (c :: rest) := by simp [AtMark, dropped c drop]
      rw [chunks_append front mark, chunks_drop (dropped c drop), after, List.append_nil]
    | false =>
      cases one : alone' c with
      | true =>
        rw [segments_alone drop one, same'] at same
        obtain ⟨rfl, rfl⟩ := List.cons.inj same
        have mark : AtMark drops alone (c :: rest) := by simpa [AtMark] using single c one
        have lone : chunks drops alone (c :: rest) =
            chunks drops alone [c] ++ chunks drops alone rest := by
          cases kept : drops c with
          | true => rw [chunks_drop kept, chunks_drop kept]; rfl
          | false =>
            have apart := (single c one).resolve_left (by simp [kept])
            rw [chunks_alone kept apart, chunks_alone kept apart]
            rfl
        rw [chunks_append front mark, List.append_nil, List.flatMap_cons, ← after, lone]
      | false =>
        rw [segments_run drop one, same'] at same
        obtain ⟨rfl, rfl⟩ := List.cons.inj same
        have grouped := ih (front ++ [c]) first' later' same'
        simpa using grouped

/-- Cutting first at some of the marks changes nothing. -/
theorem chunks_eq_flatMap (text : List α) :
    chunks drops alone text = (segments drops' alone' text).flatMap (chunks drops alone) := by
  obtain ⟨first, later, same⟩ := exists_segments drops' alone' text
  have whole := chunks_append_segments dropped single text [] first later same
  rwa [List.nil_append, List.nil_append, ← List.flatMap_cons, ← same] at whole

end Coarser

/-- Deleting characters that are no marks commutes with cutting. -/
theorem segments_filter {keep : α → Bool}
    (kept : ∀ c, keep c = false → drops c = false ∧ alone c = false) (text : List α) :
    segments drops alone (text.filter keep) =
      (segments drops alone text).map fun segment => segment.filter keep := by
  induction text with
  | nil => rfl
  | cons c rest ih =>
    obtain ⟨first, later, same⟩ := exists_segments drops alone rest
    cases stays : keep c with
    | false =>
      obtain ⟨dropped, single⟩ := kept c stays
      rw [List.filter_cons_of_neg (by simp [stays]), ih, segments_run dropped single, same]
      simp [stays]
    | true =>
      rw [List.filter_cons_of_pos stays]
      cases dropped : drops c with
      | true => rw [segments_drop dropped, segments_drop dropped, ih]; rfl
      | false =>
        cases single : alone c with
        | true =>
          rw [segments_alone dropped single, segments_alone dropped single, ih]
          simp [stays]
        | false =>
          rw [segments_run dropped single, segments_run dropped single, ih, same]
          simp [stays]

theorem flatten_chunks (drops alone : α → Bool) (text : List α) :
    (chunks drops alone text).flatten = text.filter fun c => !drops c := by
  rw [chunks, nonempty_flatten]
  induction text with
  | nil => rfl
  | cons c rest ih =>
    cases dropped : drops c with
    | true =>
      rw [segments_drop dropped, List.flatten_cons, ih, List.filter_cons_of_neg (by simp [dropped])]
      rfl
    | false =>
      rw [List.filter_cons_of_pos (by simp [dropped]), ← ih]
      cases single : alone c with
      | true => rw [segments_alone dropped single]; rfl
      | false =>
        obtain ⟨first, later, same⟩ := exists_segments drops alone rest
        rw [segments_run dropped single, same]
        rfl

/-- A dropped mark is in no segment. -/
theorem drops_of_mem_segments {text : List α} :
    ∀ segment ∈ segments drops alone text, ∀ c ∈ segment, drops c = false := by
  induction text with
  | nil => simp [segments]
  | cons c rest ih =>
    cases dropped : drops c with
    | true => simpa [segments_drop dropped] using ih
    | false =>
      cases single : alone c with
      | true => simpa [segments_alone dropped single, dropped] using ih
      | false =>
        obtain ⟨first, later, same⟩ := exists_segments drops alone rest
        rw [same] at ih
        simpa [segments_run dropped single, same, dropped] using ih

end Chunks

section Words

variable {alone : α → Bool}

/-- A word with no mark. -/
def Plain (alone : α → Bool) (word : List α) : Prop := ∀ c ∈ word, alone c = false

/-- Words that are lone marks or plain, no two plain ones next to each other. -/
structure Separated (alone : α → Bool) (words : List (List α)) : Prop where
  classed : ∀ word ∈ words, Plain alone word ∨ ∃ mark, alone mark = true ∧ word = [mark]
  apart : words.IsChain fun first second => ¬ (Plain alone first ∧ Plain alone second)

theorem Separated.tail {word : List α} {words : List (List α)}
    (separated : Separated alone (word :: words)) : Separated alone words where
  classed other member := separated.classed other (List.mem_cons_of_mem word member)
  apart := separated.apart.tail

theorem Separated.cons_mark {mark : α} {words : List (List α)} (single : alone mark = true)
    (separated : Separated alone words) : Separated alone ([mark] :: words) where
  classed := by
    simpa using ⟨.inr single, separated.classed⟩
  apart := by
    refine List.isChain_cons.mpr ⟨fun next _ both => ?_, separated.apart⟩
    exact absurd single (Bool.eq_false_iff.mp (both.1 mark List.mem_cons_self))

/-- Before a plain word may stand any other in its place. -/
theorem Separated.replace {first first' : List α} {words : List (List α)}
    (plain : Plain alone first) (plain' : Plain alone first')
    (separated : Separated alone (first :: words)) : Separated alone (first' :: words) where
  classed := by
    rintro word (_ | ⟨_, member⟩)
    · exact .inl plain'
    · exact separated.tail.classed word member
  apart := by
    obtain ⟨before, after⟩ := List.isChain_cons.mp separated.apart
    exact List.isChain_cons.mpr ⟨fun next here both => before next here ⟨plain, both.2⟩, after⟩

/-- Cutting a text leaves separated words, the first segment being plain. -/
theorem separated_segments (alone : α → Bool) (text : List α) :
    ∃ first later, segments (fun _ => false) alone text = first :: later ∧ Plain alone first ∧
      Separated alone (first :: nonempty later) := by
  induction text with
  | nil => exact ⟨[], [], rfl, by simp [Plain], ⟨by simp [Plain], by simp⟩⟩
  | cons c rest ih =>
    obtain ⟨first, later, same, plain, separated⟩ := ih
    cases single : alone c with
    | true =>
      refine ⟨[], [c] :: first :: later, ?_, by simp [Plain], ?_⟩
      · rw [segments_alone rfl single, same]
      · have tail : Separated alone (nonempty (first :: later)) := by
          cases first with
          | nil => exact separated.tail
          | cons d first => exact separated
        have marked := tail.cons_mark single
        refine ⟨fun word member => ?_, List.isChain_cons.mpr ⟨?_, marked.apart⟩⟩
        · rcases List.mem_cons.mp member with rfl | member
          · exact .inl (by simp [Plain])
          · exact marked.classed word member
        · rintro next here ⟨_, none⟩
          obtain rfl : [c] = next := Option.some.inj here
          exact absurd single (Bool.eq_false_iff.mp (none c List.mem_cons_self))
    | false =>
      have plain' : Plain alone (c :: first) := by
        rintro d (_ | ⟨_, member⟩)
        · exact single
        · exact plain d member
      refine ⟨c :: first, later, ?_, plain', separated.replace plain plain'⟩
      rw [segments_run rfl single, same]
      rfl

theorem separated_chunks (alone : α → Bool) (text : List α) :
    Separated alone (chunks (fun _ => false) alone text) := by
  obtain ⟨first, later, same, _, separated⟩ := separated_segments alone text
  rw [chunks, same]
  cases first with
  | nil => exact separated.tail
  | cons c first => exact separated

theorem Separated.atMark {word : List α} {words : List (List α)} (plain : Plain alone word)
    (separated : Separated alone (word :: words)) :
    AtMark (fun _ => false) alone words.flatten := by
  cases words with
  | nil => simp [AtMark]
  | cons next later =>
    rcases separated.classed next (by simp) with plain' | ⟨mark, single, rfl⟩
    · exact absurd ⟨plain, plain'⟩ ((List.isChain_cons.mp separated.apart).1 next rfl)
    · simp [AtMark, single]

theorem Separated.chunks_flatten {words : List (List α)} (some : ∀ word ∈ words, word ≠ [])
    (separated : Separated alone words) :
    chunks (fun _ => false) alone words.flatten = words := by
  induction words with
  | nil => rfl
  | cons word rest ih =>
    have later := ih (fun other member => some other (List.mem_cons_of_mem word member))
      separated.tail
    rw [List.flatten_cons]
    rcases separated.classed word List.mem_cons_self with plain | ⟨mark, single, rfl⟩
    · rw [chunks_run (some word List.mem_cons_self) (fun c member => ⟨rfl, plain c member⟩)
        (separated.atMark plain), later]
    · rw [List.singleton_append, chunks_alone rfl single, later]

/-- A text is cut into given words when they are its own, in order, and separated. -/
theorem chunks_eq_iff {words : List (List α)} (some : ∀ word ∈ words, word ≠ [])
    (text : List α) :
    chunks (fun _ => false) alone text = words ↔ text = words.flatten ∧ Separated alone words := by
  constructor
  · rintro rfl
    exact ⟨by simp [flatten_chunks], separated_chunks alone text⟩
  · rintro ⟨rfl, separated⟩
    exact separated.chunks_flatten some

end Words

section Lists

variable {β : Type*} {f g : β → List (List α)}

theorem eq_of_length_flatten {words more : List (List α)} (some : ∀ word ∈ words ++ more, word ≠ [])
    (equal : (words ++ more).flatten.length = words.flatten.length) : words ++ more = words := by
  cases more with
  | nil => exact List.append_nil words
  | cons word rest =>
    have one := List.length_pos_iff.mpr (some word (by simp))
    simp only [List.flatten_append, List.flatten_cons, List.length_append] at equal
    omega

theorem length_flatten_flatMap_le {parts : List β}
    (shorter : ∀ part ∈ parts, (g part).flatten.length ≤ (f part).flatten.length) :
    (parts.flatMap g).flatten.length ≤ (parts.flatMap f).flatten.length := by
  induction parts with
  | nil => exact le_rfl
  | cons part rest ih =>
    have later := ih fun other member => shorter other (List.mem_cons_of_mem part member)
    have here := shorter part List.mem_cons_self
    simp only [List.flatMap_cons, List.flatten_append, List.length_append]
    omega

theorem length_flatMap_filter_le (keep : β → Bool) (h : β → List α) (parts : List β) :
    ((parts.filter keep).flatMap h).length ≤ (parts.flatMap h).length :=
  (List.filter_sublist.flatMap h).length_le

theorem length_flatMap_filter_lt {keep : β → Bool} {h : β → List α} {parts : List β} {part : β}
    (member : part ∈ parts) (left : keep part = false) (some : h part ≠ []) :
    ((parts.filter keep).flatMap h).length < (parts.flatMap h).length := by
  obtain ⟨before, after, rfl⟩ := List.append_of_mem member
  have one := List.length_pos_iff.mpr some
  have first := length_flatMap_filter_le keep h before
  have second := length_flatMap_filter_le keep h after
  rw [List.filter_append, List.filter_cons_of_neg (by simp [left]), List.flatMap_append,
    List.flatMap_append, List.flatMap_cons]
  simp only [List.length_append]
  omega

/-- Lists of words made part by part agree only where each part does, if the parts of one are
never the longer ones. -/
theorem flatMap_eq_iff {parts : List β} (some : ∀ part, ∀ word ∈ f part, word ≠ [])
    (some' : ∀ part, ∀ word ∈ g part, word ≠ [])
    (shorter : ∀ part ∈ parts, (g part).flatten.length ≤ (f part).flatten.length) :
    parts.flatMap f = parts.flatMap g ↔ ∀ part ∈ parts, f part = g part := by
  refine ⟨?_, List.flatMap_congr⟩
  induction parts with
  | nil => exact fun _ part member => absurd member List.not_mem_nil
  | cons part rest ih =>
    intro same
    rw [List.flatMap_cons, List.flatMap_cons] at same
    have here := shorter part List.mem_cons_self
    have rest_shorter := fun other member => shorter other (List.mem_cons_of_mem part member)
    have later := length_flatten_flatMap_le rest_shorter
    have total := congrArg (fun words => words.flatten.length) same
    simp only [List.flatten_append, List.length_append] at total
    have long : (f part).flatten.length = (g part).flatten.length := by omega
    have equal : f part = g part := by
      rcases List.append_eq_append_iff.mp same with ⟨more, longer, _⟩ | ⟨more, longer, _⟩
      · rw [longer] at long ⊢
        exact (eq_of_length_flatten (longer ▸ some' part) long.symm).symm
      · rw [longer] at long ⊢
        exact eq_of_length_flatten (longer ▸ some part) long
    rw [equal] at same
    rintro other (_ | ⟨_, member⟩)
    · exact equal
    · exact ih rest_shorter (List.append_cancel_left same) other member

end Lists

end Foundation
