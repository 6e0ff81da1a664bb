import Mathlib.Data.List.Infix
import Mathlib.Data.Nat.Notation

/-! Leftmost, longest, non-overlapping matches of a list of patterns in a text of tokens:
the reference scan as a relation, and a scan that asks a function for each match. -/

namespace Foundation

variable {α β : Type*}

structure Hit (β : Type*) where
  start : ℕ
  length : ℕ
  value : β

/-- The pattern has a token and its tokens begin the text. -/
def Starts (patterns : List (List α × β)) (text : List α) (pattern : List α × β) : Prop :=
  pattern ∈ patterns ∧ pattern.1 ≠ [] ∧ pattern.1 <+: text

/-- No other pattern that begins the text has more tokens. -/
def Longest (patterns : List (List α × β)) (text : List α) (pattern : List α × β) : Prop :=
  Starts patterns text pattern ∧
    ∀ other, Starts patterns text other → other.1.length ≤ pattern.1.length

/-- The hits of a scan of the text, whose first token is number `start`. -/
inductive Scan (patterns : List (List α × β)) : ℕ → List α → List (Hit β) → Prop where
  | stop (start : ℕ) : Scan patterns start [] []
  | emit {start : ℕ} {text : List α} {pattern : List α × β} {later : List (Hit β)}
      (longest : Longest patterns text pattern)
      (after : Scan patterns (start + pattern.1.length) (text.drop pattern.1.length) later) :
      Scan patterns start text (⟨start, pattern.1.length, pattern.2⟩ :: later)
  | advance {start : ℕ} {token : α} {rest : List α} {later : List (Hit β)}
      (absent : ∀ pattern, ¬ Starts patterns (token :: rest) pattern)
      (after : Scan patterns (start + 1) rest later) : Scan patterns start (token :: rest) later

/-- The scan of the text comes to stand before the rest. -/
inductive Stands (patterns : List (List α × β)) : List α → List α → Prop where
  | here (text : List α) : Stands patterns text text
  | jump {text rest : List α} {pattern : List α × β} (longest : Longest patterns text pattern)
      (after : Stands patterns (text.drop pattern.1.length) rest) : Stands patterns text rest
  | advance {token : α} {tokens rest : List α}
      (absent : ∀ pattern, ¬ Starts patterns (token :: tokens) pattern)
      (after : Stands patterns tokens rest) : Stands patterns (token :: tokens) rest

/-- A scan that asks a function for the match and its length, in at most so many turns. -/
def scanWith (choose : List α → Option (β × ℕ)) : ℕ → ℕ → List α → List (Hit β)
  | 0, _, _ => []
  | _, _, [] => []
  | turns + 1, start, token :: rest =>
    match choose (token :: rest) with
    | some (value, length) =>
      ⟨start, length, value⟩ ::
        scanWith choose turns (start + length) ((token :: rest).drop length)
    | none => scanWith choose turns (start + 1) rest

/-- What the function answers is a longest match with a valid value, or there is none. -/
def Agrees (patterns : List (List α × β)) (choose : List α → Option (β × ℕ)) (valid : β → Prop)
    (text : List α) : Prop :=
  match choose text with
  | some (value, length) =>
    (∃ pattern, Longest patterns text pattern ∧ pattern.1.length = length ∧ pattern.2 = value) ∧
      valid value
  | none => ∀ pattern, ¬ Starts patterns text pattern

section Reference

variable {patterns : List (List α × β)} {text rest : List α}

theorem Starts.length_pos {pattern : List α × β} (starts : Starts patterns text pattern) :
    0 < pattern.1.length := List.length_pos_iff.mpr starts.2.1

theorem not_starts_nil (pattern : List α × β) : ¬ Starts patterns [] pattern :=
  fun starts => starts.2.1 (List.prefix_nil.mp starts.2.2)

theorem Longest.length_eq {first second : List α × β} (left : Longest patterns text first)
    (right : Longest patterns text second) : first.1.length = second.1.length :=
  Nat.le_antisymm (right.2 first left.1) (left.2 second right.1)

/-- Where a pattern begins the text, so does a longest one. -/
theorem Longest.take_eq {pattern : List α × β} (longest : Longest patterns text pattern) :
    text.take pattern.1.length = pattern.1 :=
  (List.prefix_iff_eq_take.mp longest.1.2.2).symm

theorem exists_longest {pattern : List α × β} (starts : Starts patterns text pattern) :
    ∃ longest, Longest patterns text longest := by
  by_contra none
  have beyond : ∀ bound, ∃ other, Starts patterns text other ∧ bound ≤ other.1.length := by
    intro bound
    induction bound with
    | zero => exact ⟨pattern, starts, Nat.zero_le _⟩
    | succ bound ih =>
      obtain ⟨other, begins, enough⟩ := ih
      obtain ⟨more, longer⟩ := not_forall.mp fun top => none ⟨other, begins, top⟩
      obtain ⟨earlier, more'⟩ := Classical.not_imp.mp longer
      exact ⟨more, earlier, by omega⟩
  obtain ⟨other, begins, long⟩ := beyond (text.length + 1)
  have short := begins.2.2.length_le
  omega

theorem Scan.le_start {start : ℕ} {hits : List (Hit β)} (scan : Scan patterns start text hits) :
    ∀ hit ∈ hits, start ≤ hit.start := by
  induction scan with
  | stop start => exact fun hit member => absurd member List.not_mem_nil
  | emit longest after ih =>
    intro hit member
    rcases List.mem_cons.mp member with rfl | later
    · exact Nat.le_refl _
    · exact (Nat.le_add_right _ _).trans (ih hit later)
  | advance absent after ih => exact fun hit member => (Nat.le_succ _).trans (ih hit member)

theorem le_start_scanWith {choose : List α → Option (β × ℕ)} {turns start : ℕ} :
    ∀ hit ∈ scanWith choose turns start text, start ≤ hit.start := by
  induction turns generalizing start text with
  | zero => exact fun hit member => absurd member List.not_mem_nil
  | succ turns ih =>
    cases text with
    | nil => exact fun hit member => absurd member List.not_mem_nil
    | cons token rest =>
      intro hit member
      rw [scanWith] at member
      split at member
      · rcases List.mem_cons.mp member with rfl | later
        · exact Nat.le_refl _
        · exact (Nat.le_add_right _ _).trans (ih hit later)
      · exact (Nat.le_succ _).trans (ih hit member)

theorem stands_nil (stands : Stands patterns ([] : List α) rest) : rest = [] := by
  cases stands with
  | here => rfl
  | jump longest after => exact absurd longest.1 (not_starts_nil _)

/-- Past a longest match the scan stands where it stands after its tokens. -/
theorem forall_stands_of_longest {pattern : List α × β} (longest : Longest patterns text pattern)
    {holds : List α → Prop} :
    (∀ rest, Stands patterns text rest → holds rest) ↔
      holds text ∧ ∀ rest, Stands patterns (text.drop pattern.1.length) rest → holds rest := by
  constructor
  · exact fun all => ⟨all text (.here text), fun rest after => all rest (.jump longest after)⟩
  · rintro ⟨first, later⟩ rest stands
    cases stands with
    | here => exact first
    | jump other after =>
      rw [other.length_eq longest] at after
      exact later rest after
    | advance absent after => exact absurd longest.1 (absent pattern)

theorem forall_stands_of_absent {token : α} {tokens : List α}
    (absent : ∀ pattern, ¬ Starts patterns (token :: tokens) pattern) {holds : List α → Prop} :
    (∀ rest, Stands patterns (token :: tokens) rest → holds rest) ↔
      holds (token :: tokens) ∧ ∀ rest, Stands patterns tokens rest → holds rest := by
  constructor
  · exact fun all => ⟨all _ (.here _), fun rest after => all rest (.advance absent after)⟩
  · rintro ⟨first, later⟩ rest stands
    cases stands with
    | here => exact first
    | jump longest after => exact absurd longest.1 (absent _)
    | advance _ after => exact later rest after

end Reference

/-- Wherever the reference scan of the text stands before a token, the function agrees. -/
def Guided (patterns : List (List α × β)) (choose : List α → Option (β × ℕ)) (valid : β → Prop)
    (text : List α) : Prop :=
  ∀ rest, Stands patterns text rest → rest ≠ [] → Agrees patterns choose valid rest

section Asked

variable {patterns : List (List α × β)} {choose : List α → Option (β × ℕ)} {valid : β → Prop}
  {turns start : ℕ} {token : α} {tokens : List α}

theorem guided_nil : Guided patterns choose valid [] :=
  fun _ stands some => absurd (stands_nil stands) some

theorem scanWith_of_none (answer : choose (token :: tokens) = none) :
    scanWith choose (turns + 1) start (token :: tokens) =
      scanWith choose turns (start + 1) tokens := by
  rw [scanWith, answer]

theorem scanWith_of_some {value : β} {length : ℕ}
    (answer : choose (token :: tokens) = some (value, length)) :
    scanWith choose (turns + 1) start (token :: tokens) = ⟨start, length, value⟩ ::
      scanWith choose turns (start + length) ((token :: tokens).drop length) := by
  rw [scanWith, answer]

/-- No hit of a scan that begins later starts here, so the reference scan advances as well. -/
theorem scan_later_iff :
    Scan patterns start (token :: tokens) (scanWith choose turns (start + 1) tokens) ↔
      (∀ pattern, ¬ Starts patterns (token :: tokens) pattern) ∧
        Scan patterns (start + 1) tokens (scanWith choose turns (start + 1) tokens) := by
  have ahead : ∀ hit ∈ scanWith choose turns (start + 1) tokens, start + 1 ≤ hit.start :=
    le_start_scanWith
  generalize scanWith choose turns (start + 1) tokens = hits at ahead ⊢
  constructor
  · intro scan
    cases scan with
    | emit longest after => exact absurd (ahead _ List.mem_cons_self) (Nat.not_succ_le_self start)
    | advance absent after => exact ⟨absent, after⟩
  · exact fun ⟨absent, after⟩ => .advance absent after

theorem scan_hit_iff {length : ℕ} {value : β} {later : List (Hit β)} :
    Scan patterns start (token :: tokens) (⟨start, length, value⟩ :: later) ↔
      (∃ pattern, Longest patterns (token :: tokens) pattern ∧ pattern.1.length = length ∧
        pattern.2 = value) ∧
      Scan patterns (start + length) ((token :: tokens).drop length) later := by
  constructor
  · intro scan
    cases scan with
    | emit longest after => exact ⟨⟨_, longest, rfl, rfl⟩, after⟩
    | advance absent after =>
      exact absurd (after.le_start _ List.mem_cons_self) (Nat.not_succ_le_self start)
  · rintro ⟨⟨pattern, longest, rfl, rfl⟩, after⟩
    exact .emit longest after

theorem guided_of_none (answer : choose (token :: tokens) = none) :
    Guided patterns choose valid (token :: tokens) ↔
      (∀ pattern, ¬ Starts patterns (token :: tokens) pattern) ∧
        Guided patterns choose valid tokens := by
  constructor
  · intro guided
    have absent := guided _ (.here _) (List.cons_ne_nil token tokens)
    rw [Agrees, answer] at absent
    exact ⟨absent, ((forall_stands_of_absent absent).mp guided).2⟩
  · rintro ⟨absent, later⟩
    refine (forall_stands_of_absent absent).mpr ⟨fun _ => ?_, later⟩
    rw [Agrees, answer]
    exact absent

theorem guided_of_some {value : β} {length : ℕ}
    (answer : choose (token :: tokens) = some (value, length)) :
    Guided patterns choose valid (token :: tokens) ↔
      ((∃ pattern, Longest patterns (token :: tokens) pattern ∧ pattern.1.length = length ∧
        pattern.2 = value) ∧ valid value) ∧
      Guided patterns choose valid ((token :: tokens).drop length) := by
  constructor
  · intro guided
    have first := guided _ (.here _) (List.cons_ne_nil token tokens)
    rw [Agrees, answer] at first
    obtain ⟨⟨pattern, longest, rfl, rfl⟩, sound⟩ := first
    exact ⟨⟨⟨pattern, longest, rfl, rfl⟩, sound⟩, ((forall_stands_of_longest longest).mp guided).2⟩
  · rintro ⟨⟨⟨pattern, longest, rfl, rfl⟩, sound⟩, later⟩
    refine (forall_stands_of_longest longest).mpr ⟨fun _ => ?_, later⟩
    rw [Agrees, answer]
    exact ⟨⟨pattern, longest, rfl, rfl⟩, sound⟩

/-- The scan that asks is a reference scan with valid values exactly when the function
answers right wherever the reference scan stands. -/
theorem scanWith_iff {text : List α} (enough : text.length ≤ turns) :
    (Scan patterns start text (scanWith choose turns start text) ∧
        ∀ hit ∈ scanWith choose turns start text, valid hit.value) ↔
      Guided patterns choose valid text := by
  induction turns generalizing start text with
  | zero =>
    obtain rfl : text = [] := List.length_eq_zero_iff.mp (Nat.le_zero.mp enough)
    exact iff_of_true ⟨.stop start, fun hit member => absurd member List.not_mem_nil⟩ guided_nil
  | succ turns ih =>
    cases text with
    | nil =>
      exact iff_of_true ⟨.stop start, fun hit member => absurd member List.not_mem_nil⟩ guided_nil
    | cons token rest =>
      cases answer : choose (token :: rest) with
      | none =>
        rw [scanWith_of_none answer, scan_later_iff, guided_of_none answer, and_assoc,
          ih (Nat.le_of_succ_le_succ enough)]
      | some found =>
        obtain ⟨value, length⟩ := found
        rw [scanWith_of_some answer, scan_hit_iff, guided_of_some answer, List.forall_mem_cons,
          and_and_and_comm]
        refine and_congr_right fun first => ih ?_
        obtain ⟨pattern, longest, rfl, _⟩ := first.1
        have consumed := longest.1.length_pos
        rw [List.length_drop]
        omega

end Asked

/-- The first answer of a loop from the greatest index down. -/
theorem findSome_down {limit index : ℕ} {find : ℕ → Option β} {value : β} :
    (List.range limit).reverse.findSome? (fun i => (find i).map (·, i + 1)) =
        some (value, index + 1) ↔
      index < limit ∧ find index = some value ∧
        ∀ other, index < other → other < limit → find other = none := by
  induction limit with
  | zero => simp
  | succ limit ih =>
    rw [List.range_succ, List.reverse_append, List.reverse_singleton, List.singleton_append,
      List.findSome?_cons]
    cases found : find limit with
    | none =>
      rw [Option.map_none, ih]
      constructor
      · rintro ⟨below, here, above⟩
        refine ⟨by omega, here, fun other more less => ?_⟩
        by_cases top : other = limit
        · exact top ▸ found
        · exact above other more (by omega)
      · rintro ⟨below, here, above⟩
        refine ⟨?_, here, fun other more less => above other more (by omega)⟩
        refine Nat.lt_of_le_of_ne (Nat.le_of_lt_succ below) fun top => ?_
        subst top
        exact absurd (found.symm.trans here) (by simp)
    | some first =>
      simp only [Option.map_some, Option.some.injEq, Prod.mk.injEq, Nat.add_right_cancel_iff]
      constructor
      · rintro ⟨rfl, rfl⟩
        exact ⟨Nat.lt_succ_self _, found, fun other more less => absurd more (by omega)⟩
      · rintro ⟨below, here, above⟩
        by_cases top : index = limit
        · subst top
          exact ⟨Option.some.inj (found.symm.trans here), rfl⟩
        · exact absurd (found.symm.trans (above limit (by omega) (Nat.lt_succ_self _))) (by simp)

end Foundation
