import Mathlib.Data.List.Flatten
import Mathlib.Data.List.Infix

/-! Messages written as lines that end with a blank one, and a reader that takes them
from a text line by line, wherever the text is cut. -/

namespace Foundation

variable {α : Type*}

/-- The lines of a text. A break ends a line; two breaks that join are one. -/
def splitLines (breaks : α → Bool) (joins : α → α → Bool) :
    Option α → List α → List α → List (List α)
  | _, line, [] => if line.isEmpty then [] else [line]
  | last, line, c :: rest =>
    if last.any fun earlier => joins earlier c then splitLines breaks joins none line rest
    else if breaks c then line :: splitLines breaks joins (some c) [] rest
    else splitLines breaks joins none (line ++ [c]) rest

/-- Every line with a break at its end. -/
def unlines (newline : α) (lines : List (List α)) : List α :=
  lines.flatMap fun line => line ++ [newline]

section Lines

variable {breaks : α → Bool} {joins : α → α → Bool} {newline : α}

/-- The line has no break. -/
def Whole (breaks : α → Bool) (line : List α) : Prop := ∀ c ∈ line, breaks c = false

instance (breaks : α → Bool) : DecidablePred (Whole breaks) := fun line =>
  List.decidableBAll _ line

theorem Whole.append {first second : List α} (whole : Whole breaks first)
    (later : Whole breaks second) : Whole breaks (first ++ second) :=
  fun c member => (List.mem_append.mp member).elim (whole c) (later c)

theorem splitLines_whole {line rest : List α} (whole : Whole breaks line) (front : List α) :
    splitLines breaks joins none front (line ++ rest) =
      splitLines breaks joins none (front ++ line) rest := by
  induction line generalizing front with
  | nil => rw [List.nil_append, List.append_nil]
  | cons c line ih =>
    have plain := whole c List.mem_cons_self
    rw [List.cons_append, splitLines]
    simp only [Option.any_none, Bool.false_eq_true, if_false, plain]
    rw [ih fun other member => whole other (List.mem_cons_of_mem c member), List.append_assoc]
    rfl

theorem splitLines_alone (alone : ∀ c, joins newline c = false) (line text : List α) :
    splitLines breaks joins (some newline) line text = splitLines breaks joins none line text := by
  cases text with
  | nil => rfl
  | cons c rest => simp only [splitLines, Option.any_some, alone, Option.any_none]

/-- What was written line by line is read line by line. -/
theorem splitLines_unlines (broken : breaks newline = true) (alone : ∀ c, joins newline c = false)
    {lines : List (List α)} (whole : ∀ line ∈ lines, Whole breaks line) (rest : List α) :
    splitLines breaks joins none [] (unlines newline lines ++ rest) =
      lines ++ splitLines breaks joins none [] rest := by
  induction lines with
  | nil => rfl
  | cons line lines ih =>
    have first := whole line List.mem_cons_self
    have later := ih fun other member => whole other (List.mem_cons_of_mem line member)
    have text : unlines newline (line :: lines) ++ rest =
        line ++ (newline :: (unlines newline lines ++ rest)) := by
      simp [unlines]
    rw [text, splitLines_whole first, List.nil_append, splitLines]
    simp only [Option.any_none, Bool.false_eq_true, if_false, broken, if_true]
    rw [splitLines_alone alone, later, List.cons_append]

theorem splitLines_part {line : List α} (whole : Whole breaks line) :
    splitLines breaks joins none [] line = if line.isEmpty then [] else [line] := by
  have read : splitLines breaks joins none [] (line ++ []) =
      splitLines breaks joins none ([] ++ line) [] := splitLines_whole whole []
  rw [List.append_nil, List.nil_append] at read
  rw [read, splitLines]

/-- A cut before the end falls into a line that is not ended then. -/
theorem prefix_unlines {cut : List α} {lines : List (List α)}
    (initial : cut <+: unlines newline lines) (shorter : cut ≠ unlines newline lines) :
    ∃ before line after part, lines = before ++ line :: after ∧ part <+: line ∧
      cut = unlines newline before ++ part := by
  induction lines generalizing cut with
  | nil => exact absurd (List.prefix_nil.mp initial) shorter
  | cons line lines ih =>
    have text : unlines newline (line :: lines) = (line ++ [newline]) ++ unlines newline lines := rfl
    rw [text] at initial shorter
    by_cases ended : line ++ [newline] <+: cut
    · obtain ⟨rest, rfl⟩ := ended
      rw [List.prefix_append_right_inj] at initial
      obtain ⟨before, other, after, part, rfl, inside, rfl⟩ :=
        ih initial fun same => shorter (congrArg _ same)
      exact ⟨line :: before, other, after, part, rfl, inside, by simp [unlines]⟩
    · have within : cut <+: line ++ [newline] :=
        (List.prefix_or_prefix_of_prefix initial (List.prefix_append _ _)).resolve_right ended
      rcases List.prefix_concat_iff.mp within with rfl | part
      · exact absurd (List.prefix_refl _) ended
      · exact ⟨[], line, lines, cut, rfl, part, rfl⟩

end Lines

section Reader

variable {σ ℓ ω μ : Type*} (read : σ → ℓ → σ × Option ω)

/-- The state after the lines, and what they completed. -/
def readLines : σ → List ℓ → σ × List ω
  | state, [] => (state, [])
  | state, line :: rest =>
    let (next, completed) := read state line
    let (last, more) := readLines next rest
    (last, completed.toList ++ more)

/-- What messages give one after the other. -/
def gives (move : σ → μ → σ) (value : σ → μ → Option ω) : σ → List μ → List ω
  | _, [] => []
  | state, message :: rest =>
    (value state message).toList ++ gives move value (move state message) rest

variable {read}

theorem readLines_append (state : σ) (first second : List ℓ) :
    readLines read state (first ++ second) =
      ((readLines read (readLines read state first).1 second).1,
        (readLines read state first).2 ++
          (readLines read (readLines read state first).1 second).2) := by
  induction first generalizing state with
  | nil => rfl
  | cons line rest ih => simp only [List.cons_append, readLines, ih, List.append_assoc]

/-- Lines that complete nothing. -/
theorem readLines_quiet {lines : List ℓ}
    (quiet : ∀ line ∈ lines, ∀ state, (read state line).2 = none) (state : σ) :
    (readLines read state lines).2 = [] := by
  induction lines generalizing state with
  | nil => rfl
  | cons line rest ih =>
    simp only [readLines, quiet line List.mem_cons_self, Option.toList_none, List.nil_append]
    exact ih (fun other member => quiet other (List.mem_cons_of_mem line member)) _

end Reader

/-- A way to write messages, and a reader for it: the lines of a message have no break and
are not blank, the blank line after them completes it, and no other line does. -/
structure Frames {σ ω μ : Type*} (breaks : α → Bool) (read : σ → List α → σ × Option ω)
    (body : μ → List (List α)) (between : σ → Prop) (move : σ → μ → σ)
    (value : σ → μ → Option ω) (messages : List μ) : Prop where
  whole : ∀ message ∈ messages, ∀ line ∈ body message, Whole breaks line ∧ line ≠ []
  quiet : ∀ state line, line ≠ [] → (read state line).2 = none
  completes : ∀ message ∈ messages, ∀ state, between state →
    readLines read state (body message ++ [[]]) =
        (move state message, (value state message).toList) ∧
      between (move state message)

/-- The text of the messages. -/
def wire {μ : Type*} (newline : α) (body : μ → List (List α)) (messages : List μ) : List α :=
  unlines newline (messages.flatMap fun message => body message ++ [[]])

section Frames

variable {σ ω μ : Type*} {breaks : α → Bool} {joins : α → α → Bool} {newline : α}
  {read : σ → List α → σ × Option ω} {body : μ → List (List α)} {between : σ → Prop}
  {move : σ → μ → σ} {value : σ → μ → Option ω} {message : μ} {messages : List μ} {state : σ}

theorem wire_cons : wire newline body (message :: messages) =
    unlines newline (body message ++ [[]]) ++ wire newline body messages := by
  simp [wire, unlines]

theorem Frames.tail (frames : Frames breaks read body between move value (message :: messages)) :
    Frames breaks read body between move value messages :=
  ⟨fun other member => frames.whole other (List.mem_cons_of_mem message member), frames.quiet,
    fun other member => frames.completes other (List.mem_cons_of_mem message member)⟩

theorem Frames.whole_lines
    (frames : Frames breaks read body between move value (message :: messages)) :
    ∀ line ∈ body message ++ [[]], Whole breaks line := by
  intro line member
  rcases List.mem_append.mp member with inside | blank
  · exact (frames.whole message List.mem_cons_self line inside).1
  · rw [List.mem_singleton.mp blank]
    exact fun _ none => absurd none List.not_mem_nil

/-- A message that is not there to its end gives nothing. -/
theorem Frames.part_quiet
    (frames : Frames breaks read body between move value (message :: messages))
    (broken : breaks newline = true) (alone : ∀ c, joins newline c = false) {cut : List α}
    (initial : cut <+: unlines newline (body message ++ [[]]))
    (shorter : cut ≠ unlines newline (body message ++ [[]])) (state : σ) :
    (readLines read state (splitLines breaks joins none [] cut)).2 = [] := by
  obtain ⟨before, line, after, part, split, inside, rfl⟩ := prefix_unlines initial shorter
  have whole : ∀ other ∈ body message ++ [[]], Whole breaks other := frames.whole_lines
  have listed : line ∈ body message ++ [[]] := by simp [split]
  have within : before ⊆ body message := by
    have short : before <+: body message ++ [[]] := ⟨line :: after, split.symm⟩
    rcases List.prefix_concat_iff.mp short with rfl | early
    · simp at split
    · exact early.subset
  have partWhole : Whole breaks part :=
    fun c member => whole line listed c (inside.subset member)
  rw [splitLines_unlines broken alone fun other member =>
    (frames.whole message List.mem_cons_self other (within member)).1, splitLines_part partWhole]
  refine readLines_quiet (fun other member state => frames.quiet state other ?_) state
  rcases List.mem_append.mp member with early | last
  · exact (frames.whole message List.mem_cons_self other (within early)).2
  · split at last
    · exact absurd last List.not_mem_nil
    · rename_i some
      rw [List.mem_singleton.mp last]
      simpa using some

/-- From any part of the text that comes first, the reader gives the messages that are
there to their end, and nothing else. -/
theorem Frames.read_cut (frames : Frames breaks read body between move value messages)
    (broken : breaks newline = true) (alone : ∀ c, joins newline c = false)
    (here : between state) {cut : List α} (initial : cut <+: wire newline body messages) :
    ∃ n, (readLines read state (splitLines breaks joins none [] cut)).2 =
        gives move value state (messages.take n) ∧
      wire newline body (messages.take n) <+: cut ∧
      ∀ more ≤ messages.length, wire newline body (messages.take more) <+: cut → more ≤ n := by
  induction messages generalizing state cut with
  | nil =>
    obtain rfl := List.prefix_nil.mp initial
    exact ⟨0, rfl, List.prefix_refl _, fun more few _ => few⟩
  | cons message rest ih =>
    rw [wire_cons] at initial
    by_cases ended : unlines newline (body message ++ [[]]) <+: cut
    · obtain ⟨later, rfl⟩ := ended
      rw [List.prefix_append_right_inj] at initial
      obtain ⟨completed, next⟩ := frames.completes message List.mem_cons_self state here
      obtain ⟨n, given, complete, most⟩ := ih frames.tail next initial
      refine ⟨n + 1, ?_, ?_, ?_⟩
      · rw [splitLines_unlines broken alone frames.whole_lines, readLines_append, completed, given,
          List.take_succ_cons, gives]
      · rw [List.take_succ_cons, wire_cons, List.prefix_append_right_inj]
        exact complete
      · intro more few inside
        cases more with
        | zero => exact Nat.zero_le _
        | succ more =>
          rw [List.take_succ_cons, wire_cons, List.prefix_append_right_inj] at inside
          exact Nat.succ_le_succ (most more (Nat.le_of_succ_le_succ few) inside)
    · have within : cut <+: unlines newline (body message ++ [[]]) :=
        (List.prefix_or_prefix_of_prefix initial (List.prefix_append _ _)).resolve_right ended
      have shorter : cut ≠ unlines newline (body message ++ [[]]) := by
        rintro rfl
        exact ended (List.prefix_refl _)
      refine ⟨0, frames.part_quiet broken alone within shorter state, List.nil_prefix, ?_⟩
      intro more _ inside
      cases more with
      | zero => exact Nat.le_refl 0
      | succ more =>
        rw [List.take_succ_cons, wire_cons] at inside
        exact absurd ((List.prefix_append _ _).trans inside) ended

end Frames

end Foundation
