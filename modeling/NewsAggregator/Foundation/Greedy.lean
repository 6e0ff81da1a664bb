import Mathlib.Data.List.Infix
import Mathlib.Data.Nat.Notation

/-! Greedy segmentation of a text by a dictionary: the longest piece at every place, where
the first place and the later ones may look their pieces up in different ways. -/

namespace Foundation.Greedy

variable {α β : Type*}

/-- The piece begins the text, and no longer one does. -/
structure Longest (find : Bool → List α → Option β) (continued : Bool) (text : List α)
    (piece : List α × β) : Prop where
  nonempty : piece.1 ≠ []
  starts : piece.1 <+: text
  found : find continued piece.1 = some piece.2
  longest : ∀ other, other <+: text → (find continued other).isSome →
    other.length ≤ piece.1.length

/-- No piece begins the text. -/
def Unmatched (find : Bool → List α → Option β) (continued : Bool) (text : List α) : Prop :=
  ∀ other, other ≠ [] → other <+: text → find continued other = none

/-- The text cut into its longest pieces from left to right. -/
inductive Segmented (find : Bool → List α → Option β) :
    Bool → List α → List (List α × β) → Prop where
  | stop (continued : Bool) : Segmented find continued [] []
  | piece {continued : Bool} {text : List α} {piece : List α × β} {later : List (List α × β)}
      (longest : Longest find continued text piece)
      (after : Segmented find true (text.drop piece.1.length) later) :
      Segmented find continued text (piece :: later)

/-- At a place the longest pieces lead to, there is text left and no piece begins it. -/
inductive Stuck (find : Bool → List α → Option β) : Bool → List α → Prop where
  | here {continued : Bool} {text : List α} (left : text ≠ [])
      (unmatched : Unmatched find continued text) : Stuck find continued text
  | later {continued : Bool} {text : List α} {piece : List α × β}
      (longest : Longest find continued text piece)
      (after : Stuck find true (text.drop piece.1.length)) : Stuck find continued text

variable {find : Bool → List α → Option β} {continued : Bool} {text : List α}
  {piece other : List α × β} {pieces : List (List α × β)}

theorem Longest.take_eq (longest : Longest find continued text piece) :
    text.take piece.1.length = piece.1 := (List.prefix_iff_eq_take.mp longest.starts).symm

theorem Longest.length_eq (first : Longest find continued text piece)
    (second : Longest find continued text other) : piece.1.length = other.1.length := by
  apply Nat.le_antisymm
  · apply second.longest _ first.starts
    rw [first.found]
    rfl
  · apply first.longest _ second.starts
    rw [second.found]
    rfl

theorem Longest.unique (first : Longest find continued text piece)
    (second : Longest find continued text other) : piece = other := by
  have same : piece.1 = other.1 := by
    rw [← first.take_eq, ← second.take_eq, first.length_eq second]
  have found := first.found
  rw [same, second.found] at found
  exact Prod.ext same (Option.some.inj found).symm

theorem Longest.matched (longest : Longest find continued text piece) :
    ¬ Unmatched find continued text := by
  intro unmatched
  have none := unmatched _ longest.nonempty longest.starts
  rw [longest.found] at none
  cases none

/-- The pieces put the text together again. -/
theorem Segmented.flatten_eq (segmented : Segmented find continued text pieces) :
    (pieces.map Prod.fst).flatten = text := by
  induction segmented with
  | stop continued => rfl
  | piece longest after ih =>
    rw [List.map_cons, List.flatten_cons, ih]
    nth_rewrite 1 [← longest.take_eq]
    rw [List.take_append_drop]

/-- What is cut into pieces is not stuck. -/
theorem Segmented.not_stuck (segmented : Segmented find continued text pieces) :
    ¬ Stuck find continued text := by
  induction segmented with
  | stop continued =>
    intro stuck
    cases stuck with
    | here left unmatched => exact left rfl
    | later longest after => exact longest.nonempty (List.prefix_nil.mp longest.starts)
  | piece longest after ih =>
    intro stuck
    cases stuck with
    | here left unmatched => exact longest.matched unmatched
    | later second stuck =>
      rw [second.unique longest] at stuck
      exact ih stuck

theorem Segmented.unique {others : List (List α × β)}
    (first : Segmented find continued text pieces)
    (second : Segmented find continued text others) : pieces = others := by
  induction first generalizing others with
  | stop continued =>
    cases second with
    | stop => rfl
    | piece longest after => exact absurd (List.prefix_nil.mp longest.starts) longest.nonempty
  | piece longest after ih =>
    cases second with
    | stop => exact absurd (List.prefix_nil.mp longest.starts) longest.nonempty
    | piece other later =>
      obtain rfl := longest.unique other
      rw [ih later]

/-- A piece is looked up as a later one, or begins the text. -/
theorem Segmented.of_mem (segmented : Segmented find continued text pieces)
    (member : piece ∈ pieces) :
    find true piece.1 = some piece.2 ∨
      find continued piece.1 = some piece.2 ∧ piece.1 <+: text := by
  induction segmented with
  | stop continued => cases member
  | piece longest after ih =>
    rcases List.mem_cons.mp member with first | later
    · rw [first]
      exact .inr ⟨longest.found, longest.starts⟩
    · rcases ih later with found | found
      · exact .inl found
      · exact .inl found.1

/-- A text that is a piece itself is cut into that piece. -/
theorem segmented_whole {value : β} (left : text ≠ []) (found : find continued text = some value) :
    Segmented find continued text [(text, value)] := by
  refine .piece ⟨left, List.prefix_refl text, found, fun other starts _ => starts.length_le⟩ ?_
  rw [List.drop_length]
  exact .stop true

end Foundation.Greedy
