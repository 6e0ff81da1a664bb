import Mathlib.Data.List.Nodup

/-! A log read from a mark: what lies up to an entry with the mark, and what lies after
it. Without a mark the log is read from its start. -/

namespace Foundation

variable {ε κ : Type*} [DecidableEq κ] (id : ε → κ)

def upToEntry (mark : κ) : List ε → List ε
  | [] => []
  | entry :: rest => if id entry = mark then [entry] else entry :: upToEntry mark rest

def afterEntry (mark : κ) : List ε → List ε
  | [] => []
  | entry :: rest => if id entry = mark then rest else afterEntry mark rest

def upToMark (mark : Option κ) (log : List ε) : List ε :=
  mark.elim [] fun mark => upToEntry id mark log

def afterMark (mark : Option κ) (log : List ε) : List ε :=
  mark.elim log fun mark => afterEntry id mark log

theorem upToMark_append_afterMark (mark : Option κ) (log : List ε) :
    upToMark id mark log ++ afterMark id mark log = log := by
  cases mark with
  | none => rfl
  | some mark =>
    change upToEntry id mark log ++ afterEntry id mark log = log
    induction log with
    | nil => rfl
    | cons entry rest ih =>
      rw [upToEntry, afterEntry]
      split
      · rfl
      · rw [List.cons_append, ih]

theorem split_entry {before rest : List ε} {entry : ε}
    (fresh : ∀ earlier ∈ before, id earlier ≠ id entry) :
    upToEntry id (id entry) (before ++ entry :: rest) = before ++ [entry] ∧
      afterEntry id (id entry) (before ++ entry :: rest) = rest := by
  induction before with
  | nil => simp [upToEntry, afterEntry]
  | cons first before ih =>
    obtain ⟨passed, remaining⟩ := ih fun earlier member =>
      fresh earlier (List.mem_cons_of_mem first member)
    have other := fresh first List.mem_cons_self
    rw [List.cons_append, upToEntry, afterEntry, if_neg other, if_neg other, passed, remaining]
    exact ⟨rfl, rfl⟩

/-- The marks are distinct: moving on to a later entry moves past what is between. -/
theorem move_mark {mark : Option κ} {log skipped rest : List ε} {entry : ε}
    (distinct : (log.map id).Nodup)
    (remaining : afterMark id mark log = skipped ++ entry :: rest) :
    upToMark id (some (id entry)) log = upToMark id mark log ++ skipped ++ [entry] ∧
      afterMark id (some (id entry)) log = rest := by
  have whole : log = upToMark id mark log ++ skipped ++ entry :: rest := by
    rw [List.append_assoc, ← remaining, upToMark_append_afterMark]
  have fresh : ∀ earlier ∈ upToMark id mark log ++ skipped, id earlier ≠ id entry := by
    intro earlier member
    rw [whole, List.map_append, List.nodup_append] at distinct
    exact distinct.2.2 _ (List.mem_map_of_mem member) _ (List.mem_map_of_mem List.mem_cons_self)
  have split : _ ∧ afterEntry id (id entry) (_ ++ entry :: rest) = rest := split_entry id fresh
  rw [← whole] at split
  exact split

end Foundation
