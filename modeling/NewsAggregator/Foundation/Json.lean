import Mathlib.Algebra.BigOperators.Group.List.Basic
import Mathlib.Algebra.Group.Action.Defs
import Mathlib.Algebra.Order.BigOperators.Group.List
import Mathlib.Algebra.Order.Ring.Nat
import Mathlib.Data.String.Lemmas

/-! Compact JSON texts and their exact size in bytes: strings with the short
escapes, everything outside ASCII as it is. -/

namespace Foundation.Json

/-- The control characters with an escape of one letter, and the two characters
that end or escape. -/
def shortEscape (c : Char) : Option String :=
  match c.toNat with
  | 8 => some "\\b"
  | 9 => some "\\t"
  | 10 => some "\\n"
  | 12 => some "\\f"
  | 13 => some "\\r"
  | 34 => some "\\\x22"
  | 92 => some "\\\\"
  | _ => none

/-- How a character stands in a string. -/
def escape (c : Char) : String :=
  match shortEscape c with
  | some short => short
  | none =>
    if c.toNat < 32 then
      "\\u00" ++ String.singleton (c.toNat / 16).digitChar ++
        String.singleton (c.toNat % 16).digitChar
    else String.singleton c

def quote (text : String) : String := "\x22" ++ String.join (text.toList.map escape) ++ "\x22"

def array (items : List String) : String := "[" ++ ",".intercalate items ++ "]"

def member (name value : String) : String := quote name ++ ":" ++ value

def object (members : List (String × String)) : String :=
  "\x7b" ++ ",".intercalate (members.map fun entry => member entry.1 entry.2) ++ "\x7d"

/-- `null` where there is no value. -/
def nullable {α : Type} (render : α → String) (value : Option α) : String :=
  value.elim "null" render

def bool (value : Bool) : String := if value then "true" else "false"

/-- The bytes of a character in a string. -/
def escapedSize (c : Char) : ℕ :=
  if (shortEscape c).isSome then 2 else if c.toNat < 32 then 6 else c.utf8Size

/-- The bytes of a string with its quotes. -/
def quotedSize (text : String) : ℕ := 2 + (text.toList.map escapedSize).sum

theorem size_escape (c : Char) : (escape c).utf8ByteSize = escapedSize c := by
  rw [escape, escapedSize]
  cases short : shortEscape c with
  | some text =>
    unfold shortEscape at short
    split at short <;> first | cases short; rfl | cases short
  | none =>
    simp only [Option.isSome_none, Bool.false_eq_true, if_false]
    split
    · rename_i control
      have digits : ∀ n < 16, (Nat.digitChar n).utf8Size = 1 := by decide
      have start : "\\u00".utf8ByteSize = 4 := by decide
      rw [String.utf8ByteSize_append, String.utf8ByteSize_append, String.utf8ByteSize_singleton,
        String.utf8ByteSize_singleton, start, digits _ (by omega), digits _ (by omega)]
    · exact String.utf8ByteSize_singleton

theorem size_join (parts : List String) :
    (String.join parts).utf8ByteSize = (parts.map String.utf8ByteSize).sum := by
  induction parts with
  | nil => rfl
  | cons part rest ih =>
    rw [String.join_cons, String.utf8ByteSize_append, ih, List.map_cons, List.sum_cons]

@[simp] theorem size_quote (text : String) : (quote text).utf8ByteSize = quotedSize text := by
  have mark : "\x22".utf8ByteSize = 1 := by decide
  rw [quote, String.utf8ByteSize_append, String.utf8ByteSize_append, size_join, List.map_map, mark,
    quotedSize]
  have sizes : (String.utf8ByteSize ∘ escape) = escapedSize := funext size_escape
  rw [sizes]
  omega

/-- What stands between the parts: a comma after each but the last. -/
theorem size_intercalate (parts : List String) :
    (",".intercalate parts).utf8ByteSize =
      (parts.map String.utf8ByteSize).sum + (parts.length - 1) := by
  induction parts with
  | nil => rfl
  | cons part rest ih =>
    cases rest with
    | nil => simp
    | cons next later =>
      have comma : ",".utf8ByteSize = 1 := by decide
      rw [String.intercalate_cons_cons, String.utf8ByteSize_append, String.utf8ByteSize_append, ih,
        comma]
      simp only [List.map_cons, List.sum_cons, List.length_cons]
      omega

theorem size_array (items : List String) : (array items).utf8ByteSize =
    2 + (items.map String.utf8ByteSize).sum + (items.length - 1) := by
  have opened : "[".utf8ByteSize = 1 := by decide
  have closed : "]".utf8ByteSize = 1 := by decide
  rw [array, String.utf8ByteSize_append, String.utf8ByteSize_append, size_intercalate, opened,
    closed]
  omega

theorem size_member (name value : String) :
    (member name value).utf8ByteSize = quotedSize name + 1 + value.utf8ByteSize := by
  have colon : ":".utf8ByteSize = 1 := by decide
  rw [member, String.utf8ByteSize_append, String.utf8ByteSize_append, size_quote, colon]

theorem size_object (members : List (String × String)) : (object members).utf8ByteSize =
    2 + (members.map fun entry => quotedSize entry.1 + 1 + entry.2.utf8ByteSize).sum +
      (members.length - 1) := by
  have opened : "\x7b".utf8ByteSize = 1 := by decide
  have closed : "\x7d".utf8ByteSize = 1 := by decide
  rw [object, String.utf8ByteSize_append, String.utf8ByteSize_append, size_intercalate,
    List.map_map, opened, closed, List.length_map]
  simp only [Function.comp_def, size_member]
  omega

/-- A character takes at least one byte and at most six. -/
theorem escapedSize_bounds (c : Char) : 1 ≤ escapedSize c ∧ escapedSize c ≤ 6 := by
  have positive := c.utf8Size_pos
  have small := c.utf8Size_le_four
  rw [escapedSize]
  split
  · omega
  · split <;> omega

theorem quotedSize_replicate (n : ℕ) {c : Char} (plain : escapedSize c = 1) :
    quotedSize (String.ofList (List.replicate n c)) = 2 + n := by
  simp [quotedSize, plain]

theorem quotedSize_le (text : String) : quotedSize text ≤ 2 + 6 * text.length := by
  have bound := List.sum_le_card_nsmul (text.toList.map escapedSize) 6 (by
    intro size member
    obtain ⟨c, _, rfl⟩ := List.mem_map.mp member
    exact (escapedSize_bounds c).2)
  simp only [List.length_map, String.length_toList, smul_eq_mul] at bound
  rw [quotedSize]
  omega

end Foundation.Json
