import Mathlib.Data.List.Basic

/-! Keyed tables under a fold of writes: one that keeps the first row of a key, and one
that keeps the last value. -/

namespace Foundation

section First

variable {ρ κ : Type*} [DecidableEq κ] (key : ρ → κ)

/-- `ON CONFLICT DO NOTHING`. -/
def keepFirst (rows : List ρ) (row : ρ) : List ρ :=
  if rows.any fun old => key old = key row then rows else rows ++ [row]

theorem find?_keepFirst (rows : List ρ) (row : ρ) (wanted : κ) :
    (keepFirst key rows row).find? (fun row => key row = wanted) =
      (rows.find? fun row => key row = wanted).or
        (if key row = wanted then some row else none) := by
  rw [keepFirst]
  split
  · rename_i taken
    by_cases same : key row = wanted
    · obtain ⟨old, member, equal⟩ := List.any_eq_true.mp taken
      have found : (rows.find? fun row => key row = wanted).isSome := by
        rw [List.find?_isSome]
        exact ⟨old, member, decide_eq_true ((of_decide_eq_true equal).trans same)⟩
      rw [Option.or_of_isSome found]
    · rw [if_neg same, Option.or_none]
  · rw [List.find?_append, List.find?_singleton]
    simp only [decide_eq_true_eq]

/-- The row of a key is its first one: of the table, or else of the batch. -/
theorem find?_foldl_keepFirst (rows batch : List ρ) (wanted : κ) :
    (batch.foldl (keepFirst key) rows).find? (fun row => key row = wanted) =
      (rows.find? fun row => key row = wanted).or
        (batch.find? fun row => key row = wanted) := by
  induction batch generalizing rows with
  | nil => rw [List.foldl_nil, List.find?_nil, Option.or_none]
  | cons row rest ih =>
    rw [List.foldl_cons, ih, find?_keepFirst, Option.or_assoc, List.find?_cons]
    by_cases same : key row = wanted
    · simp [same]
    · simp [same]

end First

section Last

variable {κ ν : Type*} [DecidableEq κ]

/-- `ON CONFLICT DO UPDATE`. -/
def keepLast (entries : List (κ × ν)) (key : κ) (value : ν) : List (κ × ν) :=
  (key, value) :: entries.filter fun entry => entry.1 ≠ key

theorem lookup_filter_ne {key wanted : κ} (other : wanted ≠ key) (entries : List (κ × ν)) :
    (entries.filter fun entry => entry.1 ≠ key).lookup wanted = entries.lookup wanted := by
  induction entries with
  | nil => rfl
  | cons entry rest ih =>
    obtain ⟨stored, value⟩ := entry
    rw [List.filter_cons, List.lookup_cons, ← ih]
    by_cases dropped : stored = key
    · simp [dropped, beq_eq_false_iff_ne.mpr other]
    · simp [dropped, List.lookup_cons]

theorem lookup_keepLast (entries : List (κ × ν)) (key wanted : κ) (value : ν) :
    (keepLast entries key value).lookup wanted =
      if wanted = key then some value else entries.lookup wanted := by
  rw [keepLast, List.lookup_cons]
  by_cases same : wanted = key
  · simp [same]
  · rw [if_neg same, lookup_filter_ne same, beq_eq_false_iff_ne.mpr same]

end Last

end Foundation
