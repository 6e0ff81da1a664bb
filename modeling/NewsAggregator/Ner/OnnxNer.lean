import NewsAggregator.Python
import NewsAggregator.Schema.Merge

/-! The token classifier's labels decoded into entities: one label for each word, and
the text of an entity cut out of the original string. -/

namespace NewsAggregator.Ner

def maxEntityText : ℕ := 256

/-- `_TAG_TO_TYPE`, with what `get` falls back to. -/
def tagToType (tag : String) : EntityType :=
  if tag = "PER" then .person
  else if tag = "ORG" then .org
  else if tag = "LOC" then .place
  else .other

/-- The first and the last part of `label.partition("-")`. -/
def partition (label : String) : String × String :=
  let (head, rest) := label.toList.span (· ≠ '-')
  (String.ofList head, String.ofList rest.tail)

/-- `text[start:stop]`. -/
def slice (text : String) (start stop : ℕ) : String :=
  String.ofList ((text.toList.drop start).take (stop - start))

/-- `[:_MAX_ENTITY_TEXT]`. -/
def cutText (text : String) : String := slice text 0 maxEntityText

theorem length_cutText (text : String) : (cutText text).length ≤ 256 := by
  rw [cutText, slice, String.length_ofList]
  exact List.length_take_le _ _

/-- `Entity(text=span_text, type=etype)`. -/
def spanEntity (py : Python) (text : String) (start stop : ℕ) (tag : String) : Entity where
  text := cutText (py.strip (slice text start stop))
  type := tagToType tag
  textCap := length_cutText _

/-- The variables of `_decode_bio`. -/
structure Decoder where
  entities : List Entity := []
  curType : Option String := none
  curStart : ℕ := 0
  curEnd : ℕ := 0
  seen : List (String × EntityType) := []

/-- `flush`. -/
def Decoder.flush (py : Python) (text : String) (state : Decoder) : Decoder :=
  match state.curType with
  | none => state
  | some curType =>
    let entity := spanEntity py text state.curStart state.curEnd curType
    if entity.text ≠ "" ∧ entity.key ∉ state.seen then
      { state with
        entities := state.entities ++ [entity]
        curType := none
        seen := entity.key :: state.seen }
    else { state with curType := none }

/-- One turn of the loop over the words. -/
def Decoder.word (py : Python) (text : String) (wordSpans : List (ℕ × ℕ))
    (wordLabel : ℕ → Option String) (state : Decoder) (wid : ℕ) : Decoder :=
  let label := (wordLabel wid).getD "O"
  let (head, tag) := partition label
  let span := wordSpans.getD wid (0, 0)
  if head = "B" ∨ (head = "I" ∧ state.curType ≠ some tag) then
    { state.flush py text with curType := some tag, curStart := span.1, curEnd := span.2 }
  else if head = "I" ∧ state.curType = some tag then { state with curEnd := span.2 }
  else state.flush py text

/-- `_decode_bio`. -/
def decodeBio (py : Python) (text : String) (wordSpans : List (ℕ × ℕ))
    (wordLabel : ℕ → Option String) : List Entity :=
  let state := (List.range wordSpans.length).foldl
    (Decoder.word py text wordSpans wordLabel) {}
  (state.flush py text).entities

end NewsAggregator.Ner
