import Mathlib.Data.List.Sort
import Mathlib.Data.Rat.Defs
import NewsAggregator.Foundation.Run
import NewsAggregator.Schema.Item
import NewsAggregator.Schema.Story

/-! The push notifier: cycles over the alerts table with a timestamp as cursor,
while other transactions append rows. -/

namespace NewsAggregator.Notify

open Foundation

/-- A row of `alerts`. -/
structure Alert where
  storyId : Uuid
  ts : Int
  gap : ℚ
  velocityZ : ℚ
  trustState : TrustState
  deriving DecidableEq

/-- The primary key `(story_id, ts)`. -/
def Alert.key (alert : Alert) : Uuid × Int := (alert.storyId, alert.ts)

/-- The table, and the notifier with the rest of the batch of its running cycle.
`boot` is the cursor it started from; its counter is the length of `pushed`. -/
structure Notifier where
  alerts : List Alert := []
  boot : Option Int := none
  cursor : Option Int := none
  batch : List Alert := []
  pushed : List Alert := []
  deriving DecidableEq

/-- A transaction commits an alert, or the notifier reads the newest timestamp,
reads the new alerts, or posts the next one, which ends the cycle when it fails. -/
inductive NotifyEvent where
  | commit (alert : Alert)
  | boot (now : Int)
  | fetch (rank : Uuid × Int → Nat)
  | push (ok : Bool)

/-- `ORDER BY a.ts`; the server settles ties. -/
def Precedes (rank : Uuid × Int → Nat) (first second : Alert) : Prop :=
  first.ts < second.ts ∨ first.ts = second.ts ∧ rank first.key ≤ rank second.key

instance (rank : Uuid × Int → Nat) : DecidableRel (Precedes rank) :=
  fun _ _ => inferInstanceAs (Decidable (_ ∨ _))

/-- `_NEW_ALERTS`. -/
def newAlerts (rank : Uuid × Int → Nat) (alerts : List Alert) (cursor : Int) (limit : Nat) :
    List Alert :=
  ((alerts.filter fun alert => cursor < alert.ts).insertionSort (Precedes rank)).take limit

/-- `_NEWEST_TS`. -/
def newestTs (alerts : List Alert) : Option Int := (alerts.map Alert.ts).max?

/-- A transaction that appends to the table. -/
def Notifier.commit (state : Notifier) (alert : Alert) : Notifier :=
  if state.alerts.any fun row => row.key = alert.key then state
  else { state with alerts := state.alerts ++ [alert] }

/-- The first part of `cycle`: boot at the newest existing alert. -/
def Notifier.initCursor (state : Notifier) (now : Int) : Notifier :=
  match state.cursor with
  | some _ => state
  | none =>
    let newest := (newestTs state.alerts).getD now
    { state with boot := some newest, cursor := some newest }

/-- The read of `cycle`; the next one waits for the end of the batch. -/
def Notifier.fetch (state : Notifier) (batchSize : Nat) (rank : Uuid × Int → Nat) : Notifier :=
  match state.cursor, state.batch with
  | some cursor, [] => { state with batch := newAlerts rank state.alerts cursor batchSize }
  | _, _ => state

/-- One turn of the loop of `cycle`. -/
def Notifier.push (state : Notifier) (ok : Bool) : Notifier :=
  match state.batch with
  | [] => state
  | alert :: rest =>
    if ok then
      { state with cursor := some alert.ts, batch := rest, pushed := state.pushed ++ [alert] }
    else { state with batch := [] }

/-- A step of a notifier with its `NOTIFY_BATCH`. -/
def notifyStep (batchSize : Nat) (state : Notifier) : NotifyEvent → Notifier
  | .commit alert => state.commit alert
  | .boot now => state.initCursor now
  | .fetch rank => state.fetch batchSize rank
  | .push ok => state.push ok

/-- Every alert of the table between the boot cursor and the cursor was pushed. -/
def Delivered (state : Notifier) : Prop :=
  ∀ boot ∈ state.boot, ∀ cursor ∈ state.cursor, ∀ alert ∈ state.alerts,
    boot < alert.ts → alert.ts ≤ cursor → alert ∈ state.pushed

instance : DecidablePred Delivered := fun state =>
  inferInstanceAs (Decidable (∀ boot ∈ state.boot, ∀ cursor ∈ state.cursor,
    ∀ alert ∈ state.alerts, _))

/-- No alert is committed behind the cursor, and none is left behind when the
cursor moves to the alert that was posted. -/
def LeavesNone (state : Notifier) : NotifyEvent → Prop
  | .commit alert => (∃ row ∈ state.alerts, row.key = alert.key) ∨
      ∀ boot ∈ state.boot, ∀ cursor ∈ state.cursor, boot < alert.ts → cursor < alert.ts
  | .push true => ∀ alert ∈ state.batch.head?, ∀ cursor ∈ state.cursor,
      ∀ other ∈ state.alerts, cursor < other.ts → other.ts ≤ alert.ts → other = alert
  | _ => True

/-- The notifier between any two steps: the batch lies ahead of the cursor, in
order, and what was pushed behind it. -/
structure Tracked (state : Notifier) : Prop where
  asleep : state.cursor = none → state.batch = [] ∧ state.pushed = []
  booted : ∀ cursor ∈ state.cursor, ∃ boot ∈ state.boot, boot ≤ cursor
  ahead : ∀ cursor ∈ state.cursor, ∀ alert ∈ state.batch, cursor ≤ alert.ts
  sorted : state.batch.Pairwise fun first second => first.ts ≤ second.ts
  behind : ∀ cursor ∈ state.cursor, ∀ alert ∈ state.pushed, alert.ts ≤ cursor
  fetched : state.batch ⊆ state.alerts
  stored : state.pushed ⊆ state.alerts

section Order

variable {rank : Uuid × Int → Nat}

instance : Std.Total (Precedes rank) where
  total first second := by
    unfold Precedes
    omega

instance : IsTrans Alert (Precedes rank) where
  trans first second third := by
    unfold Precedes
    omega

theorem newAlerts_sorted (alerts : List Alert) (cursor : Int) (limit : Nat) :
    (newAlerts rank alerts cursor limit).Pairwise fun first second => first.ts ≤ second.ts := by
  have sorted := List.pairwise_insertionSort (Precedes rank)
    (alerts.filter fun alert => cursor < alert.ts)
  refine (sorted.imp fun {first second} precedes => ?_).sublist (List.take_sublist ..)
  unfold Precedes at precedes
  omega

theorem mem_newAlerts {alerts : List Alert} {cursor : Int} {limit : Nat} {alert : Alert}
    (member : alert ∈ newAlerts rank alerts cursor limit) : alert ∈ alerts ∧ cursor < alert.ts := by
  have kept := List.mem_of_mem_take member
  rw [List.mem_insertionSort, List.mem_filter] at kept
  exact ⟨kept.1, of_decide_eq_true kept.2⟩

end Order

section Run

variable {batchSize : Nat} {state : Notifier}

theorem Tracked.commit (tracked : Tracked state) (alert : Alert) : Tracked (state.commit alert) := by
  rw [Notifier.commit]
  split
  · exact tracked
  · exact ⟨tracked.asleep, tracked.booted, tracked.ahead, tracked.sorted, tracked.behind,
      List.Subset.trans tracked.fetched (List.subset_append_left _ _),
      List.Subset.trans tracked.stored (List.subset_append_left _ _)⟩

theorem Tracked.initCursor (tracked : Tracked state) (now : Int) :
    Tracked (state.initCursor now) := by
  rw [Notifier.initCursor]
  split
  · exact tracked
  · rename_i asleep
    obtain ⟨empty, fresh⟩ := tracked.asleep asleep
    refine ⟨nofun, ?_, ?_, tracked.sorted, ?_, tracked.fetched, tracked.stored⟩
    · intro cursor here
      exact ⟨cursor, here, le_refl cursor⟩
    · simp [empty]
    · simp [fresh]

theorem Tracked.fetch (tracked : Tracked state) (rank : Uuid × Int → Nat) :
    Tracked (state.fetch batchSize rank) := by
  rw [Notifier.fetch]
  split
  · rename_i cursor here _
    refine ⟨?_, tracked.booted, ?_, newAlerts_sorted .., tracked.behind,
      fun alert member => (mem_newAlerts member).1, tracked.stored⟩
    · intro asleep
      cases here.symm.trans asleep
    · intro position same alert member
      obtain rfl := Option.some.inj (here.symm.trans same)
      exact (mem_newAlerts member).2.le
  · exact tracked

theorem Tracked.fail (tracked : Tracked state) : Tracked { state with batch := [] } where
  asleep none := ⟨rfl, (tracked.asleep none).2⟩
  booted := tracked.booted
  ahead _ _ := nofun
  sorted := .nil
  behind := tracked.behind
  fetched := List.nil_subset _
  stored := tracked.stored

theorem Tracked.push (tracked : Tracked state) (ok : Bool) : Tracked (state.push ok) := by
  rw [Notifier.push]
  split
  · exact tracked
  rename_i alert rest batch
  split
  swap
  · exact tracked.fail
  have sorted := tracked.sorted
  have fetched := tracked.fetched
  rw [batch, List.pairwise_cons] at sorted
  rw [batch, List.cons_subset] at fetched
  cases here : state.cursor with
  | none =>
    rw [(tracked.asleep here).1] at batch
    cases batch
  | some cursor =>
    have onward : cursor ≤ alert.ts := tracked.ahead cursor here alert (by simp [batch])
    refine ⟨nofun, ?_, ?_, sorted.2, ?_, fetched.2, ?_⟩
    · rintro position ⟨⟩
      obtain ⟨boot, booted, before⟩ := tracked.booted cursor here
      exact ⟨boot, booted, before.trans onward⟩
    · rintro position ⟨⟩
      exact sorted.1
    · rintro position ⟨⟩ other member
      rcases List.mem_append.mp member with old | new
      · exact (tracked.behind cursor here other old).trans onward
      · rw [List.mem_singleton.mp new]
    · rw [List.append_subset]
      exact ⟨tracked.stored, by simpa using fetched.1⟩

theorem Tracked.step (tracked : Tracked state) (event : NotifyEvent) :
    Tracked (notifyStep batchSize state event) := by
  cases event with
  | commit alert => exact tracked.commit alert
  | boot now => exact tracked.initCursor now
  | fetch rank => exact tracked.fetch rank
  | push ok => exact tracked.push ok

/-- A commit behind the cursor is the only one that leaves an alert behind. -/
theorem delivered_commit_iff (tracked : Tracked state) (delivered : Delivered state)
    (alert : Alert) : Delivered (state.commit alert) ↔ LeavesNone state (.commit alert) := by
  rw [Notifier.commit]
  split
  · rename_i present
    have known : ∃ row ∈ state.alerts, row.key = alert.key := by simpa using present
    exact ⟨fun _ => .inl known, fun _ => delivered⟩
  · rename_i absent
    have fresh : ∀ row ∈ state.alerts, row.key ≠ alert.key := by simpa using absent
    constructor
    · intro after
      refine .inr fun boot booted cursor here later => not_le.mp fun passed => ?_
      have pushed := after boot booted cursor here alert (by simp) later passed
      exact fresh alert (tracked.stored pushed) rfl
    · rintro (⟨row, member, same⟩ | ahead)
      · exact absurd same (fresh row member)
      · intro boot booted cursor here other member later passed
        rcases List.mem_append.mp member with old | new
        · exact delivered boot booted cursor here other old later passed
        · obtain rfl := List.mem_singleton.mp new
          exact absurd passed (not_le.mpr (ahead boot booted cursor here later))

/-- A posted alert moves the cursor past other alerts exactly if it leaves some behind. -/
theorem delivered_push_iff (tracked : Tracked state) (delivered : Delivered state) :
    Delivered (state.push true) ↔ LeavesNone state (.push true) := by
  rw [Notifier.push, LeavesNone]
  cases batch : state.batch with
  | nil => simpa using delivered
  | cons alert rest =>
    cases here : state.cursor with
    | none =>
      rw [(tracked.asleep here).1] at batch
      cases batch
    | some cursor =>
      obtain ⟨boot, booted, before⟩ := tracked.booted cursor here
      constructor
      · rintro after _ ⟨⟩ _ ⟨⟩ other member later passed
        have pushed := after boot booted alert.ts rfl other member (before.trans_lt later) passed
        rcases List.mem_append.mp pushed with old | new
        · exact absurd later (not_lt.mpr (tracked.behind cursor here other old))
        · exact List.mem_singleton.mp new
      · rintro alone _ same _ ⟨⟩ other member later passed
        obtain rfl := Option.some.inj (booted.symm.trans same)
        rcases le_or_gt other.ts cursor with reached | ahead
        · exact List.mem_append_left _ (delivered boot booted cursor here other member later reached)
        · rw [alone alert rfl cursor rfl other member ahead passed]
          simp

theorem Delivered.initCursor (delivered : Delivered state) (now : Int) :
    Delivered (state.initCursor now) := by
  rw [Notifier.initCursor]
  split
  · exact delivered
  · rintro boot ⟨⟩ cursor ⟨⟩ alert _ later passed
    exact absurd passed (not_le.mpr later)

theorem Delivered.fetch (delivered : Delivered state) (rank : Uuid × Int → Nat) :
    Delivered (state.fetch batchSize rank) := by
  rw [Notifier.fetch]
  split <;> exact delivered

theorem Delivered.fail (delivered : Delivered state) : Delivered (state.push false) := by
  rw [Notifier.push]
  split <;> exact delivered

theorem delivered_step_iff (tracked : Tracked state) (delivered : Delivered state)
    (event : NotifyEvent) :
    Delivered (notifyStep batchSize state event) ↔ LeavesNone state event := by
  cases event with
  | commit alert => exact delivered_commit_iff tracked delivered alert
  | boot now => exact iff_of_true (delivered.initCursor now) trivial
  | fetch rank => exact iff_of_true (delivered.fetch rank) trivial
  | push ok =>
    cases ok with
    | true => exact delivered_push_iff tracked delivered
    | false => exact iff_of_true delivered.fail trivial

/-- In a run every alert the cursor has passed was pushed, if and only if no step
leaves one behind. -/
theorem alerts_delivered_iff (batchSize : Nat) (events : List NotifyEvent) :
    Always (notifyStep batchSize) Delivered {} events ↔
      Along (notifyStep batchSize) LeavesNone {} events := by
  have start : Delivered {} := by simp [Delivered]
  have tracked : Tracked {} := by constructor <;> simp
  rw [always_iff_along, and_iff_right start]
  have every : Along (notifyStep batchSize) (fun _ _ => True) {} events :=
    along_of_forall fun _ _ => trivial
  refine along_congr every
    (fun state => Tracked state ∧ Delivered state) ⟨tracked, start⟩ ?_ ?_
  · rintro state event ⟨tracked, delivered⟩ _
    exact delivered_step_iff tracked delivered event
  · rintro state event ⟨tracked, _⟩ delivered
    exact ⟨tracked.step event, delivered⟩

end Run

/-- An alert of a Story at a time. -/
def alertAt (storyId : Uuid) (ts : Int) : Alert := ⟨storyId, ts, 10, 12, .corroborated⟩

/-- Two Stories are alerted at once, the second post fails, and the next cycle
does not find its alert any more. -/
def tied : List NotifyEvent :=
  [.boot 5, .commit (alertAt 1 10), .commit (alertAt 2 10), .fetch fun _ => 0, .push true,
    .push false, .fetch fun _ => 0]

theorem tied_lost :
    (run (notifyStep 50) {} tied).batch = [] ∧ ¬ Always (notifyStep 50) Delivered {} tied := by
  refine ⟨by decide +kernel, fun always => ?_⟩
  have last := always tied (List.prefix_refl _)
  revert last
  decide +kernel

end NewsAggregator.Notify
