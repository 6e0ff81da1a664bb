import Mathlib.Data.List.Basic

/-! Patterns over sequences of tokens, with a wildcard for one token and one for
all that follow, and the pattern of what two of them have in common. -/

namespace Foundation

/-- A pattern of tokens. -/
inductive Pattern (τ : Type*)
  /-- No further token. -/
  | done
  /-- One more token at least. -/
  | rest
  | token (word : τ) (next : Pattern τ)
  /-- Any one token. -/
  | any (next : Pattern τ)
  deriving DecidableEq

namespace Pattern

variable {τ : Type*}

section Accepts

variable [DecidableEq τ]

def accepts : Pattern τ → List τ → Bool
  | done, words => words.isEmpty
  | rest, words => !words.isEmpty
  | token _ _, [] => false
  | token word next, first :: words => word = first && next.accepts words
  | any _, [] => false
  | any next, _ :: words => next.accepts words

/-- What both patterns accept, as a pattern. -/
def meet : Pattern τ → Pattern τ → Option (Pattern τ)
  | done, done => some done
  | rest, rest => some rest
  | rest, token word next => some (token word next)
  | rest, any next => some (any next)
  | token word next, rest => some (token word next)
  | any next, rest => some (any next)
  | token word next, token other later =>
    if word = other then (next.meet later).map (token word) else none
  | token word next, any later => (next.meet later).map (token word)
  | any next, token word later => (next.meet later).map (token word)
  | any next, any later => (next.meet later).map any
  | done, _ => none
  | _, done => none

/-- The meet accepts what both patterns accept. -/
theorem accepts_meet (first second : Pattern τ) (words : List τ) :
    (∃ common, first.meet second = some common ∧ common.accepts words = true) ↔
      first.accepts words = true ∧ second.accepts words = true := by
  induction first generalizing second words with
  | done =>
    cases second <;> cases words <;> simp [meet, accepts]
  | rest =>
    cases second <;> cases words <;> simp [meet, accepts]
  | token word next ih =>
    cases second with
    | done => cases words <;> simp [meet, accepts]
    | rest => cases words <;> simp [meet, accepts]
    | token other later =>
      by_cases same : word = other
      · subst same
        cases words with
        | nil => simp [meet, accepts]
        | cons head tail =>
          simpa [meet, accepts, and_left_comm, and_assoc] using fun _ => ih later tail
      · cases words with
        | nil => simp [meet, accepts, same]
        | cons head tail =>
          simp only [meet, if_neg same, accepts, reduceCtorEq, false_and, exists_false, false_iff]
          grind
    | any later =>
      cases words with
      | nil => simp [meet, accepts]
      | cons head tail =>
        simpa [meet, accepts, and_left_comm, and_assoc] using fun _ => ih later tail
  | any next ih =>
    cases second with
    | done => cases words <;> simp [meet, accepts]
    | rest => cases words <;> simp [meet, accepts]
    | token other later =>
      cases words with
      | nil => simp [meet, accepts]
      | cons head tail =>
        simpa [meet, accepts, and_left_comm, and_assoc] using fun _ => ih later tail
    | any later =>
      cases words with
      | nil => simp [meet, accepts]
      | cons head tail => simpa [meet, accepts] using ih later tail

end Accepts

variable [Inhabited τ]

/-- Some sequence of tokens the pattern accepts. -/
def sample : Pattern τ → List τ
  | done => []
  | rest => [default]
  | token word next => word :: next.sample
  | any next => default :: next.sample

variable [DecidableEq τ]

@[simp] theorem accepts_sample (pattern : Pattern τ) : pattern.accepts pattern.sample = true := by
  induction pattern with
  | done => rfl
  | rest => rfl
  | token word next ih => simpa [accepts, sample] using ih
  | any next ih => exact ih

/-- Two patterns overlap exactly where they have a meet. -/
theorem meet_isSome {first second : Pattern τ} :
    (first.meet second).isSome = true ↔
      ∃ words, first.accepts words = true ∧ second.accepts words = true := by
  rw [Option.isSome_iff_exists]
  constructor
  · intro ⟨common, found⟩
    exact ⟨common.sample, (accepts_meet first second _).mp ⟨common, found, accepts_sample common⟩⟩
  · intro ⟨words, both⟩
    obtain ⟨common, found, _⟩ := (accepts_meet first second words).mpr both
    exact ⟨common, found⟩

/-- Two lists of patterns accept a common sequence exactly where two of them meet. -/
theorem any_meet_isSome {left right : List (Pattern τ)} :
    (left.any fun first => right.any fun second => (first.meet second).isSome) = true ↔
      ∃ words, left.any (·.accepts words) = true ∧ right.any (·.accepts words) = true := by
  simp only [List.any_eq_true, meet_isSome]
  constructor
  · rintro ⟨first, here, second, there, words, accepted, matched⟩
    exact ⟨words, ⟨first, here, accepted⟩, second, there, matched⟩
  · rintro ⟨words, ⟨first, here, accepted⟩, second, there, matched⟩
    exact ⟨first, here, second, there, words, accepted, matched⟩

end Pattern

/-- The pattern a text of tokens writes: `*` for one token, a last `>` for all
that follow. -/
def Pattern.ofTokens : List String → Pattern String
  | [] => .done
  | [">"] => .rest
  | word :: words => if word = "*" then .any (ofTokens words) else .token word (ofTokens words)

end Foundation
