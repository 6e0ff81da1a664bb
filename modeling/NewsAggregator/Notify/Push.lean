import Mathlib.Algebra.Order.Group.Abs
import Mathlib.Data.List.TakeWhile
import Mathlib.Data.Rat.Floor
import NewsAggregator.Notify.Notifier

/-! The push of an alert, and a whole cycle against a server that takes every request. -/

namespace NewsAggregator.Notify

/-- The value closest to a number, the even one of two. -/
def roundHalfEven (x : ℚ) : Int :=
  let below := ⌊x⌋
  if x - below < 1 / 2 then below
  else if 1 / 2 < x - below then below + 1
  else if below % 2 = 0 then below else below + 1

/-- The format `.1f`. -/
def fixed1 (x : ℚ) : String :=
  let tenths := (roundHalfEven (10 * |x|)).toNat
  (if x < 0 then "-" else "") ++ toString (tenths / 10) ++ "." ++ toString (tenths % 10)

/-- `str` of a UUID. -/
def uuidText (id : Uuid) : String :=
  let digits := (Nat.toDigits 16 id).leftpad 32 '0'
  let group (start length : ℕ) := String.ofList ((digits.drop start).take length)
  "-".intercalate [group 0 8, group 8 4, group 12 4, group 16 4, group 20 12]

/-- A value of the enumeration in the database. -/
def trustStateText : TrustState → String
  | .rumor => "rumor"
  | .corroborated => "corroborated"
  | .primaryBacked => "primary_backed"

/-- The entities in the title: five at most, and none without a Story. -/
def shownEntities (entitySet : Option (List String)) : List String := (entitySet.getD []).take 5

/-- `format_push`: title and body. -/
def formatPush (alert : Alert) (entitySet : Option (List String)) : String × String :=
  let joined := ", ".intercalate (shownEntities entitySet)
  let entities := if joined = "" then "unknown entities" else joined
  ("Developing story: " ++ entities,
    "gap " ++ fixed1 alert.gap ++ " · velocity z " ++ fixed1 alert.velocityZ ++ " · " ++
      trustStateText alert.trustState ++ " · story " ++ uuidText alert.storyId)

/-- The check the HTTP client makes of a header value: the characters it sends, and whether
it builds a request or raises. -/
structure HeaderCheck where
  sends : Char → Bool
  builds : String → Bool

def isBlank (c : Char) : Bool := c = ' ' ∨ c = '\t'

/-- ASCII without the control characters. -/
def isPrintable (c : Char) : Bool := ' ' ≤ c ∧ c ≤ '~'

/-- What is relied on of the client: the grammar of a header value, which has no blank at
either end; that every printable character is sent; and that none but ASCII is. -/
structure HeaderCheck.Lawful (check : HeaderCheck) : Prop where
  grammar : ∀ value, check.builds value = true ↔ (∀ c ∈ value.toList, check.sends c = true) ∧
    (∀ c ∈ value.toList.head?, isBlank c = false) ∧ ∀ c ∈ value.toList.getLast?, isBlank c = false
  printable : ∀ c, isPrintable c = true → check.sends c = true
  ascii : ∀ c, check.sends c = true → c.toNat < 128

/-- A request the client can build. -/
structure PushRequest (check : HeaderCheck) where
  title : String
  priority : String := "high"
  tags : String := "rotating_light"
  content : String
  legal : check.builds title = true

/-- The first part of `push`; `none` where the client raises. -/
def pushRequest (check : HeaderCheck) (alert : Alert) (entitySet : Option (List String)) :
    Option (PushRequest check) :=
  let push := formatPush alert entitySet
  if legal : check.builds push.1 = true then some { title := push.1, content := push.2, legal }
  else none

/-- Whether `push` returns; the server answers a request with 2xx or not. -/
def pushes {check : HeaderCheck} (server : PushRequest check → Bool) (alert : Alert)
    (entitySet : Option (List String)) : Bool :=
  (pushRequest check alert entitySet).any server

/-- The loop of `cycle`, a turn for each row of the batch. -/
def Notifier.drain (post : Alert → Bool) : ℕ → Notifier → Notifier
  | 0, state => state
  | turns + 1, state =>
    match state.batch with
    | [] => state
    | alert :: _ => drain post turns (state.push (post alert))

/-- `cycle`; the Stories are joined to the alerts by their id. -/
def Notifier.cycle {check : HeaderCheck} (state : Notifier) (server : PushRequest check → Bool)
    (entitySets : Uuid → Option (List String)) (batchSize : ℕ) (rank : Uuid × Int → ℕ)
    (now : Int) : Notifier :=
  let fetched := ({ state with batch := [] }.initCursor now).fetch batchSize rank
  fetched.drain (fun alert => pushes server alert (entitySets alert.storyId)) fetched.batch.length

/-- The cursor a cycle reads from. -/
def Notifier.readFrom (state : Notifier) (now : Int) : Int :=
  state.cursor.getD ((newestTs state.alerts).getD now)

/-- The cycle pushed these rows, and the cursor is at the last of them. -/
structure Progressed (state after : Notifier) (cursor : Int) (rows : List Alert) : Prop where
  pushed : after.pushed = state.pushed ++ rows
  cursor : after.cursor = some ((rows.getLast?.map Alert.ts).getD cursor)

/-- The text that joins the names does not end in a blank. -/
def Closes (names : List String) : Prop :=
  ∀ last ∈ names.getLast?, if last = "" then names.length = 1
    else last.toList.getLast?.all fun c => !isBlank c

instance : DecidablePred Closes := fun names =>
  inferInstanceAs (Decidable (∀ last ∈ names.getLast?, _))

/-- All that a title shows of the names can be sent. -/
structure Sendable (check : HeaderCheck) (names : List String) : Prop where
  sends : ∀ name ∈ names, name.toList.all check.sends
  closes : Closes names

section Header

variable {check : HeaderCheck}

theorem HeaderCheck.Lawful.all (lawful : check.Lawful) {text : List Char}
    (printable : text.all isPrintable = true) : ∀ c ∈ text, check.sends c = true :=
  fun c member => lawful.printable c (List.all_eq_true.mp printable c member)

theorem sends_intercalate (lawful : check.Lawful) (names : List String) :
    (∀ c ∈ (", ".intercalate names).toList, check.sends c = true) ↔
      ∀ name ∈ names, name.toList.all check.sends := by
  simp only [List.all_eq_true]
  have separator : ∀ c ∈ ", ".toList, check.sends c = true := lawful.all (by decide +kernel)
  induction names with
  | nil => simp
  | cons name rest ih =>
    cases rest with
    | nil => simp
    | cons second rest =>
      rw [String.intercalate_cons_cons, String.toList_append, String.toList_append,
        List.forall_mem_append, List.forall_mem_append, List.forall_mem_cons]
      rw [and_iff_left separator]
      exact and_congr_right fun _ => ih

/-- The text that joins some names ends as the last of them, or with the separator. -/
theorem getLast?_intercalate (names : List String) :
    (", ".intercalate names).toList.getLast? = names.getLast?.bind fun last =>
      if last = "" ∧ names.length ≠ 1 then some ' ' else last.toList.getLast? := by
  induction names with
  | nil => rfl
  | cons name rest ih =>
    cases rest with
    | nil => simp
    | cons second rest =>
      rw [String.intercalate_cons_cons, String.toList_append, String.toList_append,
        List.getLast?_append, List.getLast?_append, ih, List.getLast?_cons_cons]
      obtain ⟨last, found⟩ : ∃ last, (second :: rest).getLast? = some last :=
        ⟨_, List.getLast?_eq_getLast_of_ne_nil (List.cons_ne_nil second rest)⟩
      rw [found]
      by_cases empty : last = ""
      · subst empty
        cases rest <;> simp
      · have ends : last.toList.getLast?.isSome := by
          rw [List.getLast?_isSome]
          simpa using empty
        obtain ⟨c, own⟩ := Option.isSome_iff_exists.mp ends
        simp [empty, own]

theorem closes_iff (names : List String) : (∀ c ∈ (", ".intercalate names).toList.getLast?,
      isBlank c = false) ↔ Closes names := by
  rw [getLast?_intercalate, Closes]
  cases found : names.getLast? with
  | none => simp
  | some last =>
    by_cases empty : last = ""
    · by_cases one : names.length = 1 <;> simp [empty, one, isBlank]
    · simp [empty, Option.all_eq_true]

/-- A title starts with a letter, and ends as the text does that it goes on with. -/
theorem builds_opened_iff (lawful : check.Lawful) {text : String} (named : text ≠ "") :
    check.builds ("Developing story: " ++ text) = true ↔
      (∀ c ∈ text.toList, check.sends c = true) ∧
        ∀ c ∈ text.toList.getLast?, isBlank c = false := by
  have opening : ∀ c ∈ "Developing story: ".toList, check.sends c = true :=
    lawful.all (by decide +kernel)
  have head : ∀ c ∈ ("Developing story: " ++ text).toList.head?, isBlank c = false := by
    rw [String.toList_append]
    rintro c ⟨⟩
    rfl
  have last : ("Developing story: " ++ text).toList.getLast? = text.toList.getLast? := by
    rw [String.toList_append, List.getLast?_append, Option.or_eq_left_of_isSome]
    rw [List.getLast?_isSome]
    simpa using named
  rw [lawful.grammar, last, String.toList_append, List.forall_mem_append]
  rw [String.toList_append] at head
  exact ⟨fun legal => ⟨legal.1.2, legal.2.2⟩, fun legal => ⟨⟨opening, legal.1⟩, head, legal.2⟩⟩

/-- A title is a header exactly if what it shows of the entities can be sent. -/
theorem builds_title_iff (lawful : check.Lawful) (alert : Alert)
    (entitySet : Option (List String)) :
    check.builds (formatPush alert entitySet).1 = true ↔
      Sendable check (shownEntities entitySet) := by
  have both : Sendable check (shownEntities entitySet) ↔
      (∀ c ∈ (", ".intercalate (shownEntities entitySet)).toList, check.sends c = true) ∧
        ∀ c ∈ (", ".intercalate (shownEntities entitySet)).toList.getLast?,
          isBlank c = false := by
    rw [sends_intercalate lawful, closes_iff]
    exact ⟨fun sendable => ⟨sendable.sends, sendable.closes⟩, fun both => ⟨both.1, both.2⟩⟩
  have title : (formatPush alert entitySet).1 = "Developing story: " ++
      (if ", ".intercalate (shownEntities entitySet) = "" then "unknown entities"
        else ", ".intercalate (shownEntities entitySet)) := rfl
  rw [title, both]
  split
  · rename_i empty
    have unknown : ∀ c ∈ "unknown entities".toList, check.sends c = true :=
      lawful.all (by decide +kernel)
    have closes : ∀ c ∈ "unknown entities".toList.getLast?, isBlank c = false := by
      rintro c ⟨⟩
      rfl
    rw [builds_opened_iff lawful (by decide), empty]
    exact iff_of_true ⟨unknown, closes⟩ (by simp)
  · rename_i named
    exact builds_opened_iff lawful named

theorem pushes_iff (lawful : check.Lawful) {server : PushRequest check → Bool}
    (healthy : ∀ request, server request = true) (alert : Alert)
    (entitySet : Option (List String)) :
    pushes server alert entitySet = true ↔ Sendable check (shownEntities entitySet) := by
  rw [← builds_title_iff lawful alert, pushes, pushRequest]
  split
  · simp [*]
  · simp [*]

/-- No name beyond ASCII can be sent. -/
theorem Sendable.ascii (lawful : check.Lawful) {names : List String}
    (sendable : Sendable check names) :
    ∀ name ∈ names, ∀ c ∈ name.toList, c.toNat < 128 :=
  fun name shown c member =>
    lawful.ascii c (List.all_eq_true.mp (sendable.sends name shown) c member)

end Header

section Cycle

variable {state : Notifier}

/-- The loop pushes the rows before the first one that cannot be posted, and its cursor
is at the last row it pushed. -/
theorem progressed_drain (post : Alert → Bool) (cursor : Int) (here : state.cursor = some cursor) :
    Progressed state (state.drain post state.batch.length) cursor
      (state.batch.takeWhile post) := by
  generalize rows : state.batch = batch
  induction batch generalizing state cursor with
  | nil => exact ⟨by simp [Notifier.drain], by simp [Notifier.drain, here]⟩
  | cons alert rest ih =>
    rw [List.length_cons, Notifier.drain, rows, List.takeWhile_cons]
    dsimp only
    cases post alert with
    | false =>
      have ended : (state.push false).drain post rest.length = { state with batch := [] } := by
        rw [Notifier.push, rows]
        cases rest <;> rfl
      rw [ended]
      exact ⟨by simp, by simp [here]⟩
    | true =>
      have next : state.push true = { state with
          cursor := some alert.ts, batch := rest, pushed := state.pushed ++ [alert] } := by
        rw [Notifier.push, rows]
        rfl
      have onward : (state.push true).cursor = some alert.ts := by rw [next]
      have remaining : (state.push true).batch = rest := by rw [next]
      obtain ⟨pushed, moved⟩ := ih alert.ts onward remaining
      constructor
      · rw [pushed, next]
        simp
      · rw [moved, if_pos rfl]
        cases tail : (rest.takeWhile post).getLast? <;> simp [List.getLast?_cons, tail]

/-- A cycle reads its rows and drains them. -/
theorem cycle_eq {check : HeaderCheck} (state : Notifier) (server : PushRequest check → Bool)
    (entitySets : Uuid → Option (List String)) (batchSize : ℕ) (rank : Uuid × Int → ℕ)
    (now : Int) : ∃ fetched : Notifier,
      fetched.batch = newAlerts rank state.alerts (state.readFrom now) batchSize ∧
        fetched.pushed = state.pushed ∧ fetched.cursor = some (state.readFrom now) ∧
          state.cycle server entitySets batchSize rank now =
            fetched.drain (fun alert => pushes server alert (entitySets alert.storyId))
              fetched.batch.length := by
  refine ⟨({ state with batch := [] }.initCursor now).fetch batchSize rank, ?_, ?_, ?_, rfl⟩
  all_goals
    cases here : state.cursor with
    | none => simp [Notifier.initCursor, Notifier.fetch, Notifier.readFrom, here]
    | some cursor => simp [Notifier.initCursor, Notifier.fetch, Notifier.readFrom, here]

/-- Against a healthy server a cycle pushes all its rows if and only if what their titles show
of the entities can be sent in a header. -/
theorem cycle_progresses_iff {check : HeaderCheck} (lawful : check.Lawful) (state : Notifier)
    {server : PushRequest check → Bool} (healthy : ∀ request, server request = true)
    (entitySets : Uuid → Option (List String)) (batchSize : ℕ) (rank : Uuid × Int → ℕ) (now : Int) :
    Progressed state (state.cycle server entitySets batchSize rank now) (state.readFrom now)
        (newAlerts rank state.alerts (state.readFrom now) batchSize) ↔
      ∀ alert ∈ newAlerts rank state.alerts (state.readFrom now) batchSize,
        Sendable check (shownEntities (entitySets alert.storyId)) := by
  obtain ⟨fetched, rows, before, here, ran⟩ :=
    cycle_eq state server entitySets batchSize rank now
  have drained := progressed_drain (fun alert => pushes server alert (entitySets alert.storyId))
    (state.readFrom now) here
  rw [← ran, rows] at drained
  have posted := fun alert => pushes_iff lawful healthy alert (entitySets alert.storyId)
  constructor
  · intro progressed alert member
    have same := progressed.pushed.symm.trans (drained.pushed.trans (by rw [before]))
    have all := List.takeWhile_eq_self_iff.mp (List.append_cancel_left same).symm
    exact (posted alert).mp (all alert member)
  · intro legal
    have all := List.takeWhile_eq_self_iff.mpr fun alert member =>
      (posted alert).mpr (legal alert member)
    rw [all] at drained
    exact ⟨before ▸ drained.pushed, drained.cursor⟩

end Cycle

/-- ASCII but for the null character and the line breaks. -/
def isSent (c : Char) : Bool := c.toNat < 128 ∧ c.toNat ∉ ([0, 10, 11, 12, 13] : List ℕ)

def asciiCheck : HeaderCheck where
  sends := isSent
  builds value := value.toList.all isSent && value.toList.head?.all (!isBlank ·) &&
    value.toList.getLast?.all (!isBlank ·)

theorem lawful_asciiCheck : asciiCheck.Lawful where
  grammar value := by
    simp [asciiCheck, Option.all_eq_true, and_assoc]
  printable c printable := by
    have bounds : 32 ≤ c.toNat ∧ c.toNat ≤ 126 := by
      simpa [isPrintable, Char.le_def, UInt32.le_iff_toNat_le] using printable
    have kept : c.toNat ∉ ([0, 10, 11, 12, 13] : List ℕ) := by
      intro member
      have low : ∀ n ∈ ([0, 10, 11, 12, 13] : List ℕ), n < 32 := by decide
      exact absurd (low _ member) (not_lt.mpr bounds.1)
    exact decide_eq_true ⟨by omega, kept⟩
  ascii c sends := by
    simp only [asciiCheck, isSent, decide_eq_true_eq] at sends
    exact sends.1

/-- One Story with plain names. -/
theorem plain_progresses :
    Progressed { alerts := [alertAt 1 10], cursor := some 5 }
      (Notifier.cycle { alerts := [alertAt 1 10], cursor := some 5 }
        (fun _ : PushRequest asciiCheck => true)
        (fun _ => some ["kyiv", "fire"]) 50 (fun _ => 0) 20) 5 [alertAt 1 10] :=
  (cycle_progresses_iff lawful_asciiCheck { alerts := [alertAt 1 10], cursor := some 5 }
    (fun _ => rfl) (fun _ => some ["kyiv", "fire"]) 50 (fun _ => 0) 20).mpr fun _ _ =>
      ⟨by decide +kernel, by decide +kernel⟩

/-- The name of a place with an accent keeps the alert and all later ones back. -/
theorem accent_blocks :
    ¬ Progressed { alerts := [alertAt 1 10, alertAt 2 20], cursor := some 5 }
      (Notifier.cycle { alerts := [alertAt 1 10, alertAt 2 20], cursor := some 5 }
        (fun _ : PushRequest asciiCheck => true)
        (fun id => if id = 1 then some ["são paulo"] else some ["kyiv"]) 50 (fun _ => 0) 30) 5
      (newAlerts (fun _ => 0) [alertAt 1 10, alertAt 2 20] 5 50) ∧
        asciiCheck.builds (formatPush (alertAt 1 10) (some ["são paulo"])).1 = false := by
  refine ⟨fun progressed => ?_, by decide +kernel⟩
  have pushed := progressed.pushed
  revert pushed
  decide +kernel

end NewsAggregator.Notify
