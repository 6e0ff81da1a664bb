import Mathlib.Data.List.DropRight
import NewsAggregator.Foundation.Resume

/-! A growing log that is read from a mark, newest entries first and one page at a time:
what lies between the mark and the page is passed over. -/

namespace Foundation

variable {ε κ : Type*} [DecidableEq κ] (id : ε → κ)

/-- The newest entries after the mark, newest first. -/
def page (limit : ℕ) (mark : Option κ) (log : List ε) : List ε :=
  ((afterMark id mark log).rtake limit).reverse

/-- The entries after the mark that are older than its page. -/
def overrun (limit : ℕ) (mark : Option κ) (log : List ε) : List ε :=
  (afterMark id mark log).rdrop limit

/-- The log has an entry with the mark, if there is one. -/
def OnLog (mark : Option κ) (log : List ε) : Prop := ∀ known ∈ mark, known ∈ log.map id

variable {id} {limit : ℕ} {mark : Option κ} {log more : List ε}

theorem overrun_append_page (limit : ℕ) (mark : Option κ) (log : List ε) :
    overrun id limit mark log ++ (page id limit mark log).reverse = afterMark id mark log := by
  rw [overrun, page, List.reverse_reverse]
  exact List.take_append_drop _ _

theorem mem_of_mem_page {entry : ε} (member : entry ∈ page id limit mark log) : entry ∈ log := by
  rw [← upToMark_append_afterMark id mark log, ← overrun_append_page limit mark log]
  exact List.mem_append_right _ (List.mem_append_right _ (List.mem_reverse.mpr member))

/-- An empty page is read at the end of the log. -/
theorem afterMark_of_page (positive : 0 < limit) (read : page id limit mark log = []) :
    afterMark id mark log = [] := by
  rw [page, List.reverse_eq_nil_iff, List.rtake, List.drop_eq_nil_iff] at read
  rw [List.eq_nil_iff_length_eq_zero]
  omega

/-- A reader that moves its mark to the head of a page is at the end of the log. -/
theorem move_to_page {newest : ε} {older : List ε} (distinct : (log.map id).Nodup)
    (read : page id limit mark log = newest :: older) :
    upToMark id (some (id newest)) log = log ∧ afterMark id (some (id newest)) log = [] := by
  have remaining : afterMark id mark log =
      (overrun id limit mark log ++ older.reverse) ++ newest :: [] := by
    rw [← overrun_append_page limit mark log, read, List.reverse_cons, List.append_assoc]
  obtain ⟨passed, left⟩ := move_mark id distinct remaining
  refine ⟨?_, left⟩
  rw [passed, List.append_assoc, List.append_assoc, ← List.append_assoc (overrun id limit mark log),
    ← remaining, upToMark_append_afterMark]

theorem upToMark_append (known : OnLog id mark log) (more : List ε) :
    upToMark id mark (log ++ more) = upToMark id mark log := by
  cases mark with
  | none => rfl
  | some mark =>
    have member := known mark rfl
    change upToEntry id mark (log ++ more) = upToEntry id mark log
    clear known
    induction log with
    | nil => cases member
    | cons entry rest ih =>
      rw [List.cons_append, upToEntry, upToEntry]
      split
      · rfl
      · rename_i other
        rw [ih ((List.mem_cons.mp member).resolve_left fun same => other same.symm)]

omit [DecidableEq κ] in
theorem OnLog.append (known : OnLog id mark log) (more : List ε) : OnLog id mark (log ++ more) := by
  intro held same
  rw [List.map_append]
  exact List.mem_append_left _ (known held same)

theorem onLog_head {newest : ε} {older : List ε} (read : page id limit mark log = newest :: older) :
    OnLog id (some (id newest)) log := by
  rintro _ ⟨⟩
  exact List.mem_map_of_mem (mem_of_mem_page (read ▸ List.mem_cons_self))

end Foundation
