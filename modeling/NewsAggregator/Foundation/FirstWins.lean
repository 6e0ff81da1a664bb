import Mathlib.Algebra.GroupWithZero.Nat
import Mathlib.Algebra.Order.BigOperators.Group.List
import Mathlib.Algebra.Order.Group.Nat
import Mathlib.Data.List.Nodup
import Mathlib.Data.List.Perm.Subperm

/-! Tables in which the first value of a key stays. What they add up to is what
was offered only where no key was offered twice. -/

namespace Foundation

variable {κ : Type*}

/-- Part of a list of positive numbers adds up to all of it only if it is all of it. -/
theorem eq_of_sublist_of_sum_eq {part whole : List (κ × ℕ)} (sub : part.Sublist whole)
    (positive : ∀ entry ∈ whole, 0 < entry.2)
    (sum : (part.map Prod.snd).sum = (whole.map Prod.snd).sum) : part = whole := by
  induction sub with
  | slnil => rfl
  | @cons part whole entry sub ih =>
    have smaller : (part.map Prod.snd).sum ≤ (whole.map Prod.snd).sum :=
      (sub.map Prod.snd).sum_le_sum fun _ _ => Nat.zero_le _
    have own := positive entry List.mem_cons_self
    rw [List.map_cons, List.sum_cons] at sum
    omega
  | @cons_cons part whole entry sub ih =>
    rw [List.map_cons, List.sum_cons, List.map_cons, List.sum_cons] at sum
    rw [ih (fun other member => positive other (List.mem_cons_of_mem entry member)) (by omega)]

/-- Rows of distinct keys out of the offers add up to the offers exactly when they
are the offers. -/
theorem sum_eq_iff_perm {rows offers : List (κ × ℕ)} (distinct : (rows.map Prod.fst).Nodup)
    (subset : rows ⊆ offers) (positive : ∀ entry ∈ offers, 0 < entry.2) :
    (rows.map Prod.snd).sum = (offers.map Prod.snd).sum ↔ rows.Perm offers := by
  constructor
  · intro sum
    obtain ⟨part, perm, sub⟩ := List.subperm_of_subset (List.Nodup.of_map _ distinct) subset
    rw [← (perm.map Prod.snd).sum_eq] at sum
    rw [← eq_of_sublist_of_sum_eq sub positive sum]
    exact perm.symm
  · exact fun perm => (perm.map Prod.snd).sum_eq

/-- Rows that hold a value for every offered key are the offers if no key was
offered twice. -/
theorem perm_of_covers {rows offers : List (κ × ℕ)} (distinct : (rows.map Prod.fst).Nodup)
    (subset : rows ⊆ offers) (once : (offers.map Prod.fst).Nodup)
    (covers : ∀ entry ∈ offers, entry.1 ∈ rows.map Prod.fst) : rows.Perm offers := by
  refine (List.perm_ext_iff_of_nodup (List.Nodup.of_map _ distinct)
    (List.Nodup.of_map _ once)).mpr fun entry =>
    ⟨fun member => subset member, fun member => ?_⟩
  obtain ⟨row, stored, same⟩ := List.mem_map.mp (covers entry member)
  rwa [← List.inj_on_of_nodup_map once (subset stored) member same]

section Keep

variable {β : Type*} [BEq κ]

/-- A key that is there keeps its value. -/
def keep (table : List (κ × β)) (entry : κ × β) : List (κ × β) :=
  if table.lookup entry.1 = none then table ++ [entry] else table

theorem lookup_entry (entry : κ × β) (rest : List (κ × β)) (key : κ) :
    (entry :: rest).lookup key =
      (if key == entry.1 then some entry.2 else none).or (rest.lookup key) := by
  obtain ⟨own, value⟩ := entry
  rw [List.lookup_cons]
  cases key == own <;> rfl

variable [LawfulBEq κ]

theorem lookup_keep (table : List (κ × β)) (entry : κ × β) (key : κ) :
    (keep table entry).lookup key =
      (table.lookup key).or (if key == entry.1 then some entry.2 else none) := by
  unfold keep
  split
  next fresh => rw [List.lookup_append, lookup_entry, List.lookup_nil, Option.or_none]
  next present =>
    cases same : key == entry.1
    · rw [if_neg Bool.false_ne_true, Option.or_none]
    · obtain ⟨value, stored⟩ := Option.ne_none_iff_exists'.mp present
      rw [eq_of_beq same, stored, Option.some_or]

/-- What a table kept under a key is what was there, else what was offered first. -/
theorem lookup_foldl_keep (entries table : List (κ × β)) (key : κ) :
    (entries.foldl keep table).lookup key = (table.lookup key).or (entries.lookup key) := by
  induction entries generalizing table with
  | nil => rw [List.foldl_nil, List.lookup_nil, Option.or_none]
  | cons entry rest ih => rw [List.foldl_cons, ih, lookup_keep, Option.or_assoc, lookup_entry]

end Keep

/-- Where a weaker test stops first: at something before what the stronger one finds,
or there. -/
theorem find?_of_stronger {α : Type*} {strong weak : α → Bool}
    (weaker : ∀ x, strong x = true → weak x = true) {xs : List α} {found : α}
    (first : xs.find? strong = some found) :
    xs.find? weak = ((xs.takeWhile fun x => !strong x).find? weak).or (some found) := by
  induction xs with
  | nil => cases first
  | cons x rest ih =>
    cases here : strong x with
    | true =>
      rw [List.find?_cons_of_pos here] at first
      rw [List.takeWhile_cons_of_neg (by simp [here]), List.find?_cons_of_pos (weaker x here),
        List.find?_nil, Option.none_or, first]
    | false =>
      rw [List.find?_cons_of_neg (Bool.eq_false_iff.mp here)] at first
      rw [List.takeWhile_cons_of_pos (by simp [here]), List.find?_cons, List.find?_cons, ih first]
      cases weak x <;> rfl

/-- A repeat at the end is left out. -/
theorem eraseDups_concat [DecidableEq κ] (before : List κ) (x : κ) :
    (before ++ [x]).eraseDups = if x ∈ before then before.eraseDups
      else before.eraseDups ++ [x] := by
  rw [List.eraseDups_append, List.cons_removeAll]
  split
  next fresh =>
    have absent : x ∉ before := by simpa using fresh
    simp [absent, List.eraseDups_cons]
  next repeated =>
    have present : x ∈ before := by simpa using repeated
    simp [present]

end Foundation
