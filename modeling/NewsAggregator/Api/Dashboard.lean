import Mathlib.Data.List.Basic
import NewsAggregator.Foundation.Run
import NewsAggregator.Schema.Item

/-! The dashboard: tabs, the feed they show and the expanded Story, while answers of the
server come in late and out of order. -/

namespace NewsAggregator.Api.Dashboard

open Foundation

inductive FeedView
  | gap
  | corroborated
  | primary
  | weather
  deriving DecidableEq

/-- What a detail box shows: the items that were loaded for a Story, or a notice. -/
inductive Detail (δ : Type)
  | loading
  | items (storyId : Uuid) (data : List δ)
  | failed
  deriving DecidableEq

/-- A row of the feed, with the detail box in it. -/
structure Row where
  storyId : Uuid
  box : Option ℕ := none
  deriving DecidableEq

/-- The state of the script and of the page. Boxes are numbered as they are made; `details`
and `refreshes` are the requests without an answer yet, `source` is the view that the
Stories of the feed were asked for. -/
structure Page (δ : Type) where
  feedView : FeedView := .gap
  heading : FeedView := .gap
  openStoryId : Option Uuid := none
  feed : List Row := []
  boxes : List (Detail δ) := []
  details : List (ℕ × Uuid) := []
  refreshes : List FeedView := [.gap]
  source : Option FeedView := none

/-- The timer, a click on a tab or on a row, and the answers of the server. -/
inductive PageEvent (δ : Type)
  | tick
  | tab (view : FeedView)
  | click (position : ℕ)
  | answer (index : ℕ) (stories : Option (List Uuid))
  | loaded (index : ℕ) (data : Option (List δ))

variable {δ : Type}

/-- The row after the box was put elsewhere. -/
def Row.without (box : ℕ) (row : Row) : Row :=
  if row.box = some box then { row with box := none } else row

/-- The boxes in these rows, each with the Story of its row. -/
def attachedTo (rows : List Row) : List (Uuid × ℕ) :=
  rows.filterMap fun row => row.box.map fun box => (row.storyId, box)

namespace Page

/-- `refresh` up to its requests. -/
def refresh (page : Page δ) : Page δ :=
  { page with refreshes := page.refreshes ++ [page.feedView] }

def setView (page : Page δ) (view : FeedView) : Page δ :=
  if view = page.feedView then page
  else refresh { page with feedView := view, heading := view }

/-- `openDetail` on the row at a position, with the request of `fillDetail`. -/
def openDetail (page : Page δ) (position : ℕ) (storyId : Uuid) (prevBox : Option ℕ) : Page δ :=
  let box := prevBox.getD page.boxes.length
  { page with
    boxes := if prevBox.isSome then page.boxes else page.boxes ++ [.loading]
    feed := (page.feed.map (Row.without box)).modify position fun row =>
      { row with box := some box }
    openStoryId := some storyId
    details := page.details ++ [(box, storyId)] }

def toggleDetail (page : Page δ) (position : ℕ) : Page δ :=
  match page.feed[position]? with
  | none => page
  | some row =>
    if row.box.isSome then
      { page with
        feed := page.feed.modify position fun row => { row with box := none }
        openStoryId := none }
    else page.openDetail position row.storyId none

/-- One turn of the loop over the Stories. -/
def appendRow (prevBox : Option ℕ) (page : Page δ) (storyId : Uuid) : Page δ :=
  let added := { page with feed := page.feed ++ [⟨storyId, none⟩] }
  if page.openStoryId = some storyId then
    added.openDetail page.feed.length storyId prevBox
  else added

def renderFeed (page : Page δ) (view : FeedView) (stories : List Uuid) : Page δ :=
  let prevBox := if page.openStoryId.isSome then page.feed.findSome? Row.box else none
  stories.foldl (appendRow prevBox) { page with feed := [], source := some view }

/-- The answer to a request of `refresh`; a failed one leaves the feed. -/
def answer (page : Page δ) (index : ℕ) (stories : Option (List Uuid)) : Page δ :=
  match page.refreshes[index]? with
  | none => page
  | some view =>
    let answered := { page with refreshes := page.refreshes.eraseIdx index }
    match stories with
    | some stories => answered.renderFeed view stories
    | none => answered

/-- The answer to a request of `fillDetail`; the box may have left the feed. -/
def loaded (page : Page δ) (index : ℕ) (data : Option (List δ)) : Page δ :=
  match page.details[index]? with
  | none => page
  | some (box, storyId) =>
    { page with
      details := page.details.eraseIdx index
      boxes := page.boxes.set box (data.elim .failed (.items storyId)) }

def step (page : Page δ) : PageEvent δ → Page δ
  | .tick => page.refresh
  | .tab view => page.setView view
  | .click position => page.toggleDetail position
  | .answer index stories => page.answer index stories
  | .loaded index data => page.loaded index data

/-- The boxes in the feed, each with the Story of its row. -/
def attached (page : Page δ) : List (Uuid × ℕ) := attachedTo page.feed

/-- The server lists a Story once, and a Story is not opened while the feed shows the
details of another. -/
def Orderly (page : Page δ) : PageEvent δ → Prop
  | .answer _ (some stories) => stories.Nodup
  | .click position => page.attached = [] ∨ ∃ row ∈ page.feed[position]?, row.box.isSome
  | _ => True

instance Orderly.decidable (page : Page δ) : ∀ event, Decidable (page.Orderly event)
  | .answer _ (some stories) => inferInstanceAs (Decidable stories.Nodup)
  | .click position => inferInstanceAs (Decidable (page.attached = [] ∨
      ∃ row ∈ page.feed[position]?, row.box.isSome = true))
  | .answer _ none => isTrue trivial
  | .tick => isTrue trivial
  | .tab _ => isTrue trivial
  | .loaded _ _ => isTrue trivial

/-- The answers to the refreshes come in the order of the requests. -/
def InOrder : PageEvent δ → Prop
  | .answer index _ => index = 0
  | _ => True

end Page

/-- The box shows nothing of another Story. -/
def Detail.Of (storyId : Uuid) : Detail δ → Prop
  | .items other _ => other = storyId
  | _ => True

namespace Page

/-- Every box in the feed is in the row of the open Story and shows nothing of another. -/
def Consistent (page : Page δ) : Prop :=
  ∀ entry ∈ page.attached, page.openStoryId = some entry.1 ∧
    ∃ detail ∈ page.boxes[entry.2]?, detail.Of entry.1

/-- An expanded Story that is listed again stays expanded, with what its box shows. -/
def Survives (page : Page δ) (event : PageEvent δ) : Prop :=
  ∀ index stories, event = .answer index (some stories) → index < page.refreshes.length →
    ∀ entry ∈ page.attached, entry.1 ∈ stories →
      (page.step event).attached = [entry] ∧ (page.step event).boxes = page.boxes

/-- The answer to the last request under way brings the feed of the tab and the heading. -/
def Follows (page : Page δ) (event : PageEvent δ) : Prop :=
  ∀ stories, event = .answer 0 (some stories) → page.refreshes.length = 1 →
    (page.step event).source = some (page.step event).feedView ∧
      (page.step event).heading = (page.step event).feedView

end Page

section Rows

variable {rows : List Row} {row : Row} {box position : ℕ} {storyId : Uuid}

theorem attachedTo_append (before after : List Row) :
    attachedTo (before ++ after) = attachedTo before ++ attachedTo after :=
  List.filterMap_append

theorem attachedTo_closed (stories : List Uuid) :
    attachedTo (stories.map fun storyId => ⟨storyId, none⟩) = [] := by
  simp [attachedTo]

theorem attachedTo_without (none : attachedTo rows = []) (box : ℕ) :
    attachedTo (rows.map (Row.without box)) = [] := by
  induction rows with
  | nil => rfl
  | cons row rest ih =>
    cases held : row.box with
    | none =>
      have other : attachedTo rest = [] := by simpa [attachedTo, held] using none
      simpa [attachedTo, Row.without, held] using ih other
    | some there => simp [attachedTo, held] at none

/-- A box is put into a row while there is no other. -/
theorem attachedTo_modify (none : attachedTo rows = []) (found : rows[position]? = some row)
    (box : ℕ) : attachedTo ((rows.map (Row.without box)).modify position fun row =>
      { row with box := some box }) = [(row.storyId, box)] := by
  induction rows generalizing position with
  | nil => simp at found
  | cons first rest ih =>
    have closed : first.box = .none := by
      cases held : first.box with
      | none => rfl
      | some there => simp [attachedTo, held] at none
    have others : attachedTo rest = [] := by simpa [attachedTo, closed] using none
    cases position with
    | zero =>
      obtain rfl : first = row := by simpa using found
      have away := attachedTo_without others box
      simp only [attachedTo] at away
      simp [attachedTo, Row.without, closed, away]
    | succ position =>
      have here := ih others (by simpa using found)
      simp only [attachedTo] at here
      simp [attachedTo, Row.without, closed, here]

/-- The box of a row is taken out. -/
theorem length_attachedTo_modify (found : rows[position]? = some row) (expanded : row.box.isSome) :
    (attachedTo (rows.modify position fun row => { row with box := none })).length + 1 =
      (attachedTo rows).length := by
  induction rows generalizing position with
  | nil => simp at found
  | cons first rest ih =>
    cases position with
    | zero =>
      obtain rfl : first = row := by simpa using found
      obtain ⟨box, held⟩ := Option.isSome_iff_exists.mp expanded
      simp [attachedTo, held]
    | succ position =>
      have here := ih (by simpa using found)
      simp only [attachedTo] at here
      cases held : first.box with
      | none => simp [attachedTo, held, here]
      | some box => simp [attachedTo, held, here]

theorem findSome_box : rows.findSome? Row.box = (attachedTo rows).head?.map Prod.snd := by
  induction rows with
  | nil => rfl
  | cons row rest ih =>
    cases held : row.box with
    | none => simpa [attachedTo, List.findSome?_cons, held] using ih
    | some box => simp [attachedTo, held]

end Rows

section Render

variable {page : Page δ} {prevBox : Option ℕ} {stories : List Uuid} {storyId : Uuid}

theorem foldl_appendRow_closed (page : Page δ)
    (absent : ∀ storyId ∈ stories, page.openStoryId ≠ some storyId) :
    stories.foldl (Page.appendRow prevBox) page =
      { page with feed := page.feed ++ stories.map fun storyId => ⟨storyId, none⟩ } := by
  induction stories generalizing page with
  | nil => simp
  | cons storyId rest ih =>
    have closed := absent storyId List.mem_cons_self
    have turn : Page.appendRow prevBox page storyId =
        { page with feed := page.feed ++ [⟨storyId, none⟩] } := by
      rw [Page.appendRow, if_neg closed]
    rw [List.foldl_cons, turn, ih]
    · simp
    · exact fun other member => absent other (List.mem_cons_of_mem _ member)

/-- What a rendering makes of an open Story that is listed once. -/
structure Reopened (page after : Page δ) (prevBox : Option ℕ) (storyId : Uuid) : Prop where
  attached : after.attached = [(storyId, prevBox.getD page.boxes.length)]
  boxes : after.boxes = if prevBox.isSome then page.boxes else page.boxes ++ [.loading]
  details : after.details = page.details ++ [(prevBox.getD page.boxes.length, storyId)]
  now : after.openStoryId = some storyId

theorem foldl_appendRow_open (page : Page δ) (prevBox : Option ℕ) (empty : page.feed = [])
    (opened : page.openStoryId = some storyId) (once : stories.Nodup)
    (member : storyId ∈ stories) :
    Reopened page (stories.foldl (Page.appendRow prevBox) page) prevBox storyId := by
  obtain ⟨before, after, rfl⟩ := List.append_of_mem member
  obtain ⟨_, rest, apart⟩ := List.nodup_append.mp once
  have earlier : ∀ other ∈ before, page.openStoryId ≠ some other := by
    intro other listed same
    obtain rfl := Option.some.inj (opened.symm.trans same)
    exact apart _ listed _ List.mem_cons_self rfl
  have later : ∀ other ∈ after, some storyId ≠ some other := by
    intro other listed same
    obtain rfl := Option.some.inj same
    exact (List.nodup_cons.mp rest).1 listed
  let rows : List Row := before.map fun other => ⟨other, none⟩
  have closed : attachedTo (rows ++ [⟨storyId, none⟩]) = [] := by
    rw [attachedTo_append, attachedTo_closed]
    rfl
  have turn : Page.appendRow prevBox { page with feed := page.feed ++ rows } storyId =
      Page.openDetail { page with feed := rows ++ [⟨storyId, none⟩] } rows.length storyId
        prevBox := by
    rw [Page.appendRow, empty, List.nil_append]
    exact if_pos opened
  have placed := attachedTo_modify closed (List.getElem?_concat_length)
    (prevBox.getD page.boxes.length)
  rw [List.foldl_append, foldl_appendRow_closed page earlier, List.foldl_cons, turn,
    foldl_appendRow_closed _ later]
  refine ⟨?_, rfl, rfl, rfl⟩
  rw [Page.attached, attachedTo_append, attachedTo_closed, List.append_nil]
  exact placed

/-- Either no row of the new feed is expanded, or the open Story is. -/
theorem renderFeed_cases (page : Page δ) (view : FeedView) (once : stories.Nodup) :
    ((∀ storyId ∈ stories, page.openStoryId ≠ some storyId) ∧
      (page.renderFeed view stories).attached = [] ∧
        (page.renderFeed view stories).boxes = page.boxes ∧
          (page.renderFeed view stories).details = page.details) ∨
    ∃ storyId ∈ stories, page.openStoryId = some storyId ∧
      Reopened page (page.renderFeed view stories) (page.attached.head?.map Prod.snd) storyId := by
  unfold Page.renderFeed
  by_cases listed : ∃ storyId ∈ stories, page.openStoryId = some storyId
  · right
    obtain ⟨storyId, member, opened⟩ := listed
    refine ⟨storyId, member, opened, ?_⟩
    have prev : (if page.openStoryId.isSome then page.feed.findSome? Row.box else none) =
        page.attached.head?.map Prod.snd := by
      rw [opened, Option.isSome_some, if_pos rfl, findSome_box]
      rfl
    rw [prev]
    obtain ⟨attached, boxes, details, now⟩ := foldl_appendRow_open
      { page with feed := [], source := some view } (page.attached.head?.map Prod.snd) rfl opened
        once member
    exact ⟨attached, boxes, details, now⟩
  · left
    have absent : ∀ storyId ∈ stories, page.openStoryId ≠ some storyId :=
      fun storyId member opened => listed ⟨storyId, member, opened⟩
    refine ⟨absent, ?_⟩
    dsimp only
    rw [foldl_appendRow_closed { page with feed := [], source := some view } absent]
    exact ⟨attachedTo_closed stories, rfl, rfl⟩

end Render

/-- A box that is shown is the only one, in the row of the open Story, and all that is in
it or on its way to it is of that Story. -/
structure Tidy (page : Page δ) : Prop where
  made : ∀ entry ∈ page.details, entry.1 < page.boxes.length
  shown : page.attached = [] ∨ ∃ storyId box, page.attached = [(storyId, box)] ∧
    page.openStoryId = some storyId ∧ (∃ detail ∈ page.boxes[box]?, detail.Of storyId) ∧
      ∀ entry ∈ page.details, entry.1 = box → entry.2 = storyId

section Invariant

variable {page : Page δ} {stories : List Uuid} {storyId : Uuid}

/-- A fresh box joins a page without one. -/
theorem Tidy.fresh (tidy : Tidy page) {after : Page δ}
    (attached : after.attached = [(storyId, page.boxes.length)])
    (boxes : after.boxes = page.boxes ++ [.loading])
    (details : after.details = page.details ++ [(page.boxes.length, storyId)])
    (opened : after.openStoryId = some storyId) : Tidy after where
  made entry member := by
    rw [details] at member
    rw [boxes, List.length_append, List.length_singleton]
    rcases List.mem_append.mp member with old | new
    · exact Nat.lt_succ_of_lt (tidy.made entry old)
    · rw [List.mem_singleton.mp new]
      exact Nat.lt_succ_self _
  shown := by
    refine .inr ⟨storyId, page.boxes.length, attached, opened, ⟨.loading, ?_, trivial⟩, ?_⟩
    · simp [boxes]
    · intro entry member same
      rw [details] at member
      rcases List.mem_append.mp member with old | new
      · exact absurd same (tidy.made entry old).ne
      · rw [List.mem_singleton.mp new]

theorem Tidy.renderFeed (tidy : Tidy page) (view : FeedView) (once : stories.Nodup) :
    Tidy (page.renderFeed view stories) := by
  rcases renderFeed_cases page view once with
    ⟨_, attached, boxes, details⟩ | ⟨storyId, member, opened, attached, boxes, details, now⟩
  · refine ⟨?_, .inl attached⟩
    rw [boxes, details]
    exact tidy.made
  · rcases tidy.shown with none | ⟨same, box, shown, there, holds, own⟩
    · rw [none] at attached boxes details
      exact tidy.fresh attached boxes details now
    · obtain rfl := Option.some.inj (opened.symm.trans there)
      rw [shown] at attached boxes details
      simp only [List.head?_cons, Option.map_some, Option.getD_some, Option.isSome_some,
        if_true] at attached boxes details
      refine ⟨?_, .inr ⟨storyId, box, attached, now, boxes ▸ holds, ?_⟩⟩
      · intro entry listed
        rw [details] at listed
        rw [boxes]
        rcases List.mem_append.mp listed with old | new
        · exact tidy.made entry old
        · obtain ⟨detail, held, _⟩ := holds
          rw [List.mem_singleton.mp new]
          exact (List.getElem?_eq_some_iff.mp held).1
      · intro entry listed here
        rw [details] at listed
        rcases List.mem_append.mp listed with old | new
        · exact own entry old here
        · rw [List.mem_singleton.mp new]

theorem Tidy.answer (tidy : Tidy page) (index : ℕ) {answered : Option (List Uuid)}
    (once : ∀ stories ∈ answered, stories.Nodup) : Tidy (page.answer index answered) := by
  unfold Page.answer
  cases page.refreshes[index]? with
  | none => exact tidy
  | some view =>
    have waiting : Tidy { page with refreshes := page.refreshes.eraseIdx index } :=
      ⟨tidy.made, tidy.shown⟩
    cases answered with
    | none => exact waiting
    | some stories => exact waiting.renderFeed view (once stories rfl)

theorem Tidy.toggleDetail (tidy : Tidy page) {position : ℕ}
    (orderly : page.attached = [] ∨ ∃ row ∈ page.feed[position]?, row.box.isSome) :
    Tidy (page.toggleDetail position) := by
  unfold Page.toggleDetail
  cases found : page.feed[position]? with
  | none => exact tidy
  | some row =>
    dsimp only
    split
    · rename_i expanded
      refine ⟨tidy.made, .inl ?_⟩
      have fewer := length_attachedTo_modify found expanded
      rcases tidy.shown with none | ⟨storyId, box, shown, _⟩
      · rw [Page.attached] at none
        rw [none] at fewer
        cases fewer
      · rw [Page.attached] at shown
        rw [shown, List.length_singleton, Nat.add_eq_right] at fewer
        exact List.length_eq_zero_iff.mp fewer
    · rename_i closed
      have none : page.attached = [] := by
        rcases orderly with none | ⟨other, same, expanded⟩
        · exact none
        · obtain rfl := Option.some.inj (found.symm.trans same)
          exact absurd expanded closed
      exact tidy.fresh (attachedTo_modify none found _) rfl rfl rfl

theorem Tidy.loaded (tidy : Tidy page) (index : ℕ) (data : Option (List δ)) :
    Tidy (page.loaded index data) := by
  unfold Page.loaded
  cases waiting : page.details[index]? with
  | none => exact tidy
  | some entry =>
    obtain ⟨box, storyId⟩ := entry
    have fewer : page.details.eraseIdx index ⊆ page.details := List.eraseIdx_subset
    have listed := List.mem_of_getElem? waiting
    refine ⟨?_, ?_⟩
    · intro entry member
      rw [List.length_set]
      exact tidy.made entry (fewer member)
    · rcases tidy.shown with none | ⟨current, shownBox, shown, there, ⟨detail, held, of⟩, own⟩
      · exact .inl none
      · refine .inr ⟨current, shownBox, shown, there, ?_,
          fun entry member => own entry (fewer member)⟩
        by_cases same : box = shownBox
        · subst same
          obtain rfl : storyId = current := own _ listed rfl
          refine ⟨data.elim .failed (.items storyId), ?_, ?_⟩
          · exact List.getElem?_set_self (List.getElem?_eq_some_iff.mp held).1
          · cases data <;> trivial
        · exact ⟨detail, by rwa [List.getElem?_set_ne same], of⟩

theorem Tidy.step (tidy : Tidy page) {event : PageEvent δ} (orderly : page.Orderly event) :
    Tidy (page.step event) := by
  cases event with
  | tick => exact ⟨tidy.made, tidy.shown⟩
  | tab view =>
    simp only [Page.step, Page.setView]
    split
    · exact tidy
    · exact ⟨tidy.made, tidy.shown⟩
  | click position => exact tidy.toggleDetail orderly
  | answer index answered =>
    apply tidy.answer
    rintro stories rfl
    exact orderly
  | loaded index data => exact tidy.loaded index data

theorem Tidy.consistent (tidy : Tidy page) : page.Consistent := by
  rcases tidy.shown with none | ⟨storyId, box, shown, opened, holds, _⟩
  · simp [Page.Consistent, none]
  · intro entry member
    rw [shown] at member
    rw [List.mem_singleton.mp member]
    exact ⟨opened, holds⟩

theorem Tidy.survives (tidy : Tidy page) {event : PageEvent δ} (orderly : page.Orderly event) :
    page.Survives event := by
  rintro index stories rfl pending entry member listed
  rcases tidy.shown with none | ⟨storyId, box, shown, opened, _, _⟩
  · rw [none] at member
    cases member
  · rw [shown] at member
    obtain rfl := List.mem_singleton.mp member
    simp only [Page.step, Page.answer, List.getElem?_eq_getElem pending]
    rcases renderFeed_cases { page with refreshes := page.refreshes.eraseIdx index }
        page.refreshes[index] orderly with
      ⟨absent, _⟩ | ⟨other, _, same, attached, boxes, _, _⟩
    · exact absurd opened (absent storyId listed)
    · obtain rfl := Option.some.inj (opened.symm.trans same)
      have head : ({ page with refreshes := page.refreshes.eraseIdx index } : Page δ).attached =
          [(storyId, box)] := shown
      rw [head] at attached boxes
      exact ⟨attached, boxes⟩

end Invariant

section Views

variable {page : Page δ}

/-- Rendering rows changes nothing of the tabs. -/
theorem foldl_appendRow_frame (prevBox : Option ℕ) (stories : List Uuid) (page : Page δ) :
    let after := stories.foldl (Page.appendRow prevBox) page
    after.feedView = page.feedView ∧ after.heading = page.heading ∧
      after.refreshes = page.refreshes ∧ after.source = page.source := by
  induction stories generalizing page with
  | nil => exact ⟨rfl, rfl, rfl, rfl⟩
  | cons storyId rest ih =>
    have turn : (Page.appendRow prevBox page storyId).feedView = page.feedView ∧
        (Page.appendRow prevBox page storyId).heading = page.heading ∧
        (Page.appendRow prevBox page storyId).refreshes = page.refreshes ∧
        (Page.appendRow prevBox page storyId).source = page.source := by
      unfold Page.appendRow
      dsimp only
      split <;> exact ⟨rfl, rfl, rfl, rfl⟩
    obtain ⟨view, heading, refreshes, source⟩ := ih (Page.appendRow prevBox page storyId)
    exact ⟨view.trans turn.1, heading.trans turn.2.1, refreshes.trans turn.2.2.1,
      source.trans turn.2.2.2⟩

/-- The last request under way is for the tab. -/
structure Asked (page : Page δ) : Prop where
  heading : page.heading = page.feedView
  last : ∀ view ∈ page.refreshes.getLast?, view = page.feedView

theorem Asked.refresh (page : Page δ) (heading : page.heading = page.feedView) :
    Asked page.refresh where
  heading := heading
  last := by simp [Page.refresh]

theorem Asked.answer (asked : Asked page) (answered : Option (List Uuid)) :
    Asked (page.answer 0 answered) := by
  unfold Page.answer
  cases pending : page.refreshes with
  | nil => exact asked
  | cons view rest =>
    have waiting : Asked { page with refreshes := rest } := by
      refine ⟨asked.heading, fun last member => asked.last last ?_⟩
      rw [pending, List.getLast?_cons, Option.mem_def.mp member, Option.getD_some]
      rfl
    cases answered with
    | none => exact waiting
    | some stories =>
      obtain ⟨feedView, heading, refreshes, _⟩ := foldl_appendRow_frame
        (if page.openStoryId.isSome then page.feed.findSome? Row.box else none) stories
        { page with refreshes := rest, feed := [], source := some view }
      refine ⟨heading.trans (waiting.heading.trans feedView.symm), fun last member => ?_⟩
      refine (waiting.last last ?_).trans feedView.symm
      rw [← refreshes]
      exact member

theorem Asked.step (asked : Asked page) {event : PageEvent δ} (inOrder : Page.InOrder event) :
    Asked (page.step event) := by
  cases event with
  | tick => exact .refresh page asked.heading
  | tab view =>
    simp only [Page.step, Page.setView]
    split
    · exact asked
    · exact .refresh _ rfl
  | click position =>
    simp only [Page.step, Page.toggleDetail]
    split
    · exact asked
    · split <;> exact ⟨asked.heading, asked.last⟩
  | answer index answered =>
    obtain rfl : index = 0 := inOrder
    exact asked.answer answered
  | loaded index data =>
    simp only [Page.step, Page.loaded]
    split
    · exact asked
    · exact ⟨asked.heading, asked.last⟩

theorem Asked.follows (asked : Asked page) (event : PageEvent δ) : page.Follows event := by
  rintro stories rfl alone
  obtain ⟨view, pending⟩ := List.length_eq_one_iff.mp alone
  obtain rfl : view = page.feedView := asked.last view (by simp [pending])
  simp only [Page.step, Page.answer, pending, List.getElem?_cons_zero]
  obtain ⟨feedView, heading, _, source⟩ := foldl_appendRow_frame
    (if page.openStoryId.isSome then page.feed.findSome? Row.box else none) stories
    { page with refreshes := [], feed := [], source := some page.feedView }
  constructor
  · exact source.trans (congrArg some feedView.symm)
  · exact heading.trans (asked.heading.trans feedView.symm)

end Views

/-- A Story is opened, loaded, listed again below another and closed. -/
def reading : List (PageEvent ℕ) :=
  [.answer 0 (some [7, 8]), .click 0, .loaded 0 (some [70]), .tab .primary, .answer 0 (some [8, 7]),
    .loaded 0 none, .click 1]

-- With two Stories open the next refresh puts the box of the first below the second.
example :
    let page := run Page.step ({} : Page ℕ)
      [.answer 0 (some [7, 8]), .click 0, .loaded 0 (some [70]), .click 1, .tick,
        .answer 0 (some [7, 8])]
    page.attached = [(8, 0)] ∧ page.boxes[0]? = some (.items 7 [70]) := by decide

end NewsAggregator.Api.Dashboard
