import NewsAggregator.Foundation.Framing
import NewsAggregator.Ingest.WikipediaRun

/-! The events of a server-sent stream, read line by line from the text of a response. -/

namespace NewsAggregator.Ingest.Wikipedia

open Foundation

/-- The line boundaries of `str.splitlines`. -/
def lineBreaks : List Char :=
  ['\n', '\x0b', '\x0c', '\r', '\x1c', '\x1d', '\x1e', '\u0085', '\u2028', '\u2029']

def isBreak (point : CodePoint) : Bool := point.char?.any (· ∈ lineBreaks)

/-- A carriage return and the line feed after it are one boundary. -/
def joinsBreak (first second : CodePoint) : Bool :=
  first = .scalar '\r' && second = .scalar '\n'

def newline : CodePoint := .scalar '\n'

/-- `aiter_lines`, on what came of a response. -/
def aiterLines (text : PyStr) : List PyStr := splitLines isBreak joinsBreak none [] text

/-- The variables of `sse_events`. -/
structure SseState where
  eventId : Option PyStr := none
  dataLines : List PyStr := []

section Code

variable (rt : Runtime) (loads : PyStr → Option PyValue)

/-- The object in the data of a message; `loads` gives nothing where `json.loads` raises. -/
def objectOf (dataLines : List PyStr) : Option PyValue :=
  (loads ([newline].intercalate dataLines)).filter PyValue.isDict

/-- The body of the loop, and what it yields. -/
def readLine (state : SseState) (line : PyStr) : SseState × Option (Option PyStr × PyValue) :=
  if line.startsWith "id:" then
    ({ state with eventId := some (stripStr rt (line.drop 3)) }, none)
  else if line.startsWith "data:" then
    ({ state with dataLines := state.dataLines ++ [stripStr rt (line.drop 5)] }, none)
  else if line = [] ∧ state.dataLines ≠ [] then
    ({ state with dataLines := [] },
      (objectOf loads state.dataLines).map fun evt => (state.eventId, evt))
  else (state, none)

/-- `sse_events`, on what came of a response before it ended or the connection dropped. -/
def sseEvents (text : PyStr) : List (Option PyStr × PyValue) :=
  (readLines (readLine rt loads) {} (aiterLines text)).2

end Code

/-- The text fits on a line and has no blanks around it. -/
def Trimmed (rt : Runtime) (text : PyStr) : Prop :=
  Whole isBreak text ∧ stripStr rt text = text

instance (rt : Runtime) : DecidablePred (Trimmed rt) := fun _ =>
  inferInstanceAs (Decidable (_ ∧ _))

/-- The line is a comment or of another field. -/
def Passed (line : PyStr) : Prop :=
  Whole isBreak line ∧ line ≠ [] ∧ ¬ line.startsWith "id:" ∧ ¬ line.startsWith "data:"

/-- A message of the server, with the lines of its data. -/
structure Message (rt : Runtime) where
  others : List PyStr := []
  id : Option PyStr
  data : List PyStr
  passed : ∀ line ∈ others, Passed line
  named : ∀ text ∈ id, Trimmed rt text
  trimmed : ∀ line ∈ data, Trimmed rt line
  nonempty : data ≠ []

namespace Message

variable {rt : Runtime} (loads : PyStr → Option PyValue)

def body (message : Message rt) : List PyStr :=
  message.others ++ (message.id.map (PyStr.of "id: " ++ ·)).toList ++
    message.data.map (PyStr.of "data: " ++ ·)

/-- A message without an id is yielded with the last one. -/
def move (state : SseState) (message : Message rt) : SseState where
  eventId := message.id.or state.eventId

def value (state : SseState) (message : Message rt) : Option (Option PyStr × PyValue) :=
  (objectOf loads message.data).map fun evt => (message.id.or state.eventId, evt)

/-- The message in the feed of the run loop. -/
def event (message : Message rt) : SseEvent where
  id := (message.id.getD []).text
  data := (loads ([newline].intercalate message.data)).getD .null

end Message

section Lines

variable {rt : Runtime} {loads : PyStr → Option PyValue} {state : SseState} {text : PyStr}

theorem stripStr_space (space : rt.isSpace ' ' = true) (text : PyStr) :
    stripStr rt (.scalar ' ' :: text) = stripStr rt text := by
  have blank : CodePoint.isSpace rt (.scalar ' ') = true := by
    simpa [CodePoint.isSpace, CodePoint.char?] using space
  rw [stripStr, stripStr, List.dropWhile_cons_of_pos blank]

theorem readLine_id (space : rt.isSpace ' ' = true) (trimmed : Trimmed rt text) :
    readLine rt loads state (PyStr.of "id: " ++ text) =
      ({ state with eventId := some text }, none) := by
  have field : PyStr.startsWith (PyStr.of "id: " ++ text) "id:" := ⟨.scalar ' ' :: text, rfl⟩
  rw [readLine, if_pos field]
  change ({ state with eventId := some (stripStr rt (.scalar ' ' :: text)) }, none) = _
  rw [stripStr_space space, trimmed.2]

theorem readLine_data (space : rt.isSpace ' ' = true) (trimmed : Trimmed rt text) :
    readLine rt loads state (PyStr.of "data: " ++ text) =
      ({ state with dataLines := state.dataLines ++ [text] }, none) := by
  have field : PyStr.startsWith (PyStr.of "data: " ++ text) "data:" := ⟨.scalar ' ' :: text, rfl⟩
  have other : ¬ PyStr.startsWith (PyStr.of "data: " ++ text) "id:" := by
    rintro ⟨rest, same⟩
    cases same
  rw [readLine, if_neg other, if_pos field]
  change ({ state with dataLines := _ ++ [stripStr rt (.scalar ' ' :: text)] }, none) = _
  rw [stripStr_space space, trimmed.2]

theorem readLine_passed {line : PyStr} (passed : Passed line) :
    readLine rt loads state line = (state, none) := by
  obtain ⟨_, some, noId, noData⟩ := passed
  rw [readLine, if_neg noId, if_neg noData, if_neg fun blank => some blank.1]

/-- Only a blank line yields. -/
theorem readLine_quiet {line : PyStr} (some : line ≠ []) :
    (readLine rt loads state line).2 = none := by
  unfold readLine
  split
  · rfl
  · split
    · rfl
    · rw [if_neg fun blank => some blank.1]

theorem readLines_others {lines : List PyStr} (passed : ∀ line ∈ lines, Passed line) :
    readLines (readLine rt loads) state lines = (state, []) := by
  induction lines with
  | nil => rfl
  | cons line rest ih =>
    rw [readLines, readLine_passed (passed line List.mem_cons_self)]
    simp only [ih fun other member => passed other (List.mem_cons_of_mem line member),
      Option.toList_none, List.nil_append]

theorem readLines_data (space : rt.isSpace ' ' = true) {lines : List PyStr}
    (trimmed : ∀ line ∈ lines, Trimmed rt line) :
    readLines (readLine rt loads) state (lines.map (PyStr.of "data: " ++ ·)) =
      ({ state with dataLines := state.dataLines ++ lines }, []) := by
  induction lines generalizing state with
  | nil => rw [List.append_nil]; rfl
  | cons line rest ih =>
    rw [List.map_cons, readLines, readLine_data space (trimmed line List.mem_cons_self)]
    simp only [ih fun other member => trimmed other (List.mem_cons_of_mem line member),
      Option.toList_none, List.nil_append, List.append_assoc, List.singleton_append]

theorem readLines_id (space : rt.isSpace ' ' = true) {id : Option PyStr}
    (named : ∀ text ∈ id, Trimmed rt text) :
    readLines (readLine rt loads) state (id.map (PyStr.of "id: " ++ ·)).toList =
      ({ state with eventId := id.or state.eventId }, []) := by
  cases id with
  | none => rfl
  | some text =>
    simp only [Option.map_some, Option.toList_some, readLines, readLine_id space (named text rfl),
      Option.toList_none, List.nil_append, Option.some_or]

/-- A message is read as it was written. -/
theorem readLines_message (space : rt.isSpace ' ' = true) (message : Message rt)
    (between : state.dataLines = []) :
    readLines (readLine rt loads) state (message.body ++ [[]]) =
      (message.move state, (message.value loads state).toList) := by
  have blank : readLine rt loads
      { eventId := message.id.or state.eventId, dataLines := message.data } [] =
        (message.move state, message.value loads state) := by
    have noId : ¬ PyStr.startsWith [] "id:" := by decide
    have noData : ¬ PyStr.startsWith [] "data:" := by decide
    rw [readLine, if_neg noId, if_neg noData, if_pos ⟨rfl, message.nonempty⟩]
    rfl
  rw [Message.body]
  simp only [readLines_append, readLines_others message.passed, readLines_id space message.named,
    readLines_data space message.trimmed, between, List.nil_append, readLines, blank,
    List.append_nil]

/-- A message fits on its lines. -/
theorem whole_body (message : Message rt) {line : PyStr} (member : line ∈ message.body) :
    Whole isBreak line ∧ line ≠ [] := by
  have idField : Whole isBreak (PyStr.of "id: ") := by decide
  have dataField : Whole isBreak (PyStr.of "data: ") := by decide
  rw [Message.body, List.append_assoc, List.mem_append, List.mem_append] at member
  rcases member with other | named | data
  · exact ⟨(message.passed line other).1, (message.passed line other).2.1⟩
  · obtain ⟨text, known, rfl⟩ := Option.mem_map.mp (Option.mem_toList.mp named)
    exact ⟨idField.append (message.named text known).1, by simp [PyStr.of]⟩
  · obtain ⟨text, known, rfl⟩ := List.mem_map.mp data
    exact ⟨dataField.append (message.trimmed text known).1, by simp [PyStr.of]⟩

theorem message_frames (loads : PyStr → Option PyValue) (space : rt.isSpace ' ' = true)
    (messages : List (Message rt)) :
    Frames isBreak (readLine rt loads) Message.body (fun state => state.dataLines = [])
      Message.move (Message.value loads) messages where
  whole _ _ _ := whole_body _
  quiet _ _ := readLine_quiet
  completes message _ _ between := ⟨readLines_message space message between, rfl⟩

/-- Where every message has an id, the events handed to the run loop are those of its feed. -/
theorem gives_events (loads : PyStr → Option PyValue) {messages : List (Message rt)}
    (named : ∀ message ∈ messages, message.id.isSome) (state : SseState) :
    (gives Message.move (Message.value loads) state messages).map
        (fun handed => SseEvent.mk (handed.1.getD []).text handed.2) =
      (messages.map (Message.event loads)).filter fun event => event.data.isDict := by
  induction messages generalizing state with
  | nil => rfl
  | cons message rest ih =>
    have later := ih (fun other member => named other (List.mem_cons_of_mem message member))
      (message.move state)
    obtain ⟨id, known⟩ := Option.isSome_iff_exists.mp (named message List.mem_cons_self)
    rw [gives, List.map_append, later, List.map_cons, List.filter_cons]
    cases loaded : loads ([newline].intercalate message.data) with
    | none => simp [Message.value, Message.event, objectOf, loaded, PyValue.isDict]
    | some evt =>
      cases object : evt.isDict <;>
        simp [Message.value, Message.event, objectOf, Option.filter_some, loaded, object, known]

end Lines

/-- `json.loads` as far as an empty object. -/
def loadsEmpty (text : PyStr) : Option PyValue :=
  if text = PyStr.of "\x7b\x7d" then some (.dict []) else none

def emptyMessage : Message .plain where
  id := some (PyStr.of "7")
  data := [PyStr.of "\x7b\x7d"]
  passed := fun _ none => absurd none List.not_mem_nil
  named := by
    rintro _ ⟨⟩
    decide +kernel
  trimmed := by decide +kernel
  nonempty := by decide

-- A next line (U+0085), which JSON allows in a string, lets the string end the message.
example : (sseEvents .plain loadsEmpty
    (PyStr.of "data: \x7b\x22\u0085\u0085data: \x7b\x7d\u0085\u0085\x22\x7d\n\n")).length = 1 := by
  decide +kernel

end NewsAggregator.Ingest.Wikipedia
