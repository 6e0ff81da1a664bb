import NewsAggregator.Ingest.Emission

/-! The recent changes of the wikis. -/

namespace NewsAggregator.Ingest.Wikipedia

open Foundation

def source : PyStr := PyStr.of "wikipedia"

def keepTypes : List PyStr := [PyStr.of "edit", PyStr.of "new"]

section Code

variable (rt : Runtime)

/-- `and` looks at each condition only after the ones before it. -/
def shouldKeep (domains : List PyStr) (skipMinor : Bool) (evt : PyValue) : Except PyError Bool :=
  if evt.isDict then do
    let info ← orDict (evt.get "meta")
    let known ← isIn (info.get "domain") domains
    if known = true ∧ (evt.get "namespace").isZero = true then
      let typed ← isIn (evt.get "type") keepTypes
      return typed && (evt.get "bot").isFalse && !(skipMinor && (evt.get "minor").truthy)
    else return false
  else return false

def hashAuthor (domain : PyStr) (user : PyValue) : Except PyError PyStr := hashRef rt domain user

def parseDt (value : PyValue) : Option DateTime :=
  (parseIso rt value PyStr.zulu).bind ParsedTime.kept

/-- The language of a wiki is what stands before `.wikipedia.org`. -/
def lang (serverName : PyValue) : PyStr :=
  let name := serverName.chars
  let domain := PyStr.of ".wikipedia.org"
  let code := name.take (name.length - domain.length)
  if domain <:+ name ∧ 1 < code.length ∧ code.length ≤ 8 ∧ CodePoint.scalar '.' ∉ code then code
  else PyStr.of "und"

/-- The title, with the comment if there is one. -/
def claimText (evt : PyValue) : PyStr :=
  let title := toStr rt (evt.get "title")
  let comment := (evt.get "comment").chars
  if comment = [] then title else title ++ PyStr.of " — " ++ comment

/-- The new revision, else the id of the event. -/
def identity (evt : PyValue) : PyValue :=
  ((evt.get "revision").get "new").orElse ((evt.get "meta").get "id")

def key (evt : PyValue) : PyStr :=
  (PyStr.of "wiki:" ++ ((evt.get "meta").get "domain").chars ++ PyStr.of ":" ++
    toStr rt (identity evt)).take 256

def itemArgs (evt : PyValue) (authorRef : PyStr) : ItemArgs :=
  let info := evt.get "meta"
  let uri := ((info.get "uri").orElse (evt.get "title_url")).chars
  { source := source
    sourceClass := .primary
    tsEvent := parseDt rt (info.get "dt")
    lang := lang (evt.get "server_name")
    text := (claimText rt evt).take maxTextLen
    urls := linkIf (uri.startsWith "http") uri
    authorRef := authorRef
    contentHash := key rt evt
    rawRef := (toStr rt (info.getOr "id" (.str []))).take 256 }

/-- The event has a domain and a title. -/
def Titled (evt : PyValue) : Prop :=
  ((evt.get "meta").get "domain").isStr ∧ (evt.get "title").truthy

instance : DecidablePred Titled := fun _ => inferInstanceAs (Decidable (_ ∧ _))

def normalize (fresh : Fresh) (evt : PyValue) : Except PyError (Option Emitted) := do
  let evt ← asDict evt
  let info ← orDict (evt.get "meta")
  if Titled evt then
    let _ ← orDict (evt.get "revision")
    if (identity evt).truthy then
      let authorRef ← hashAuthor rt (info.get "domain").chars (evt.get "user")
      let item ← (itemArgs rt evt authorRef).validate fresh
      return some item
    else return none
  else return none

end Code

section Spec

variable (rt : Runtime) (evt : PyValue)

/-- An article of a listed domain. -/
def Listed (domains : List PyStr) : Prop :=
  (((evt.get "meta").get "domain").isStr ∧ ((evt.get "meta").get "domain").chars ∈ domains) ∧
    (evt.get "namespace").isZero

/-- What decides on an event is hashable where a set is asked for it. -/
def Decides (domains : List PyStr) : Prop :=
  evt.isDict → (evt.get "meta").OrDict ∧ ((evt.get "meta").get "domain").hashable ∧
    (Listed evt domains → (evt.get "type").hashable)

/-- The event is kept: a human edit of a listed article. -/
def Kept (domains : List PyStr) (skipMinor : Bool) : Prop :=
  evt.isDict ∧ Listed evt domains ∧
    ((((evt.get "type").isStr ∧ (evt.get "type").chars ∈ keepTypes) ∧ (evt.get "bot").isFalse) ∧
      ¬ (skipMinor ∧ (evt.get "minor").truthy))

instance (domains : List PyStr) : Decidable (Listed evt domains) :=
  inferInstanceAs (Decidable (_ ∧ _))

instance (domains : List PyStr) (skipMinor : Bool) : Decidable (Kept evt domains skipMinor) :=
  inferInstanceAs (Decidable (_ ∧ _))

theorem ends_shouldKeep {domains : List PyStr} {skipMinor : Bool} {property : Bool → Prop} :
    Ends (shouldKeep domains skipMinor evt) property ↔
      Decides evt domains ∧ property (decide (Kept evt domains skipMinor)) := by
  unfold shouldKeep Decides Kept
  by_cases dict : evt.isDict
  · by_cases listed : Listed evt domains
    · have guard := listed
      unfold Listed at guard
      simp [dict, listed, guard, ends_ite, and_assoc, Bool.and_assoc]
    · have guard := listed
      unfold Listed at guard
      simp only [dict, listed, if_true, ends_bind, ends_orDict, ends_isIn, ends_ite, ends_pure,
        Bool.and_eq_true, decide_eq_true_eq, guard, if_false]
      simp [and_assoc]
  · simp [dict]

/-- The author, where there is one, and the names with a cap encode. -/
def Clean : Prop :=
  ((evt.get "user").truthy →
    ((evt.get "meta").get "domain").chars.Encodes ∧ (toStr rt (evt.get "user")).Encodes) ∧
  (lang (evt.get "server_name")).Encodes ∧
  PyStr.Encodes ((claimText rt evt).take maxTextLen) ∧ (key rt evt).Encodes ∧
  PyStr.Encodes ((toStr rt ((evt.get "meta").getOr "id" (.str []))).take 256)

abbrev args : ItemArgs :=
  itemArgs rt evt (hashRefOf rt ((evt.get "meta").get "domain").chars (evt.get "user"))

theorem length_lang_le (serverName : PyValue) : (lang serverName).length ≤ 8 := by
  unfold lang
  dsimp only
  split
  · rename_i found
    exact found.2.2.1
  · simp

theorem sized_args : (args rt evt).Sized := by
  have named : "wikipedia".length ≤ 64 := by decide
  refine ⟨?_, length_lang_le _, List.length_take_le _ _, Nat.zero_le _, length_linkIf_le,
    (hashRefOf_capped ..).2.trans (by decide), by simp [itemArgs], List.length_take_le _ _,
    List.length_take_le _ _⟩
  simpa [itemArgs, source] using named

theorem ends_normalize {fresh : Fresh} {property : Option Emitted → Prop} :
    Ends (normalize rt fresh evt) property ↔ evt.isDict ∧ (evt.get "meta").OrDict ∧
      if Titled evt then
        (evt.get "revision").OrDict ∧
          if (identity evt).truthy then
            Clean rt evt ∧ property (some ((sized_args rt evt).emitted fresh))
          else property none
      else property none := by
  have encoded : (args rt evt).Encoded ↔ (lang (evt.get "server_name")).Encodes ∧
      PyStr.Encodes ((claimText rt evt).take maxTextLen) ∧ (key rt evt).Encodes ∧
      PyStr.Encodes ((toStr rt ((evt.get "meta").getOr "id" (.str []))).take 256) := by
    simp [ItemArgs.Encoded, itemArgs, source, hashRefOf_capped]
  simp only [normalize, ends_bind, ends_asDict, ends_orDict, ends_ite, ends_pure,
    hashAuthor, ends_hashRef, ItemArgs.ends_validate_of_sized (sized_args rt evt), encoded, Clean,
    and_assoc]

/-- The events both functions return on. -/
def Tame (domains : List PyStr) (skipMinor : Bool) : Prop :=
  Decides evt domains ∧ (Kept evt domains skipMinor → Titled evt →
    (evt.get "revision").OrDict ∧ ((identity evt).truthy → Clean rt evt))

theorem returns_iff {domains : List PyStr} {skipMinor : Bool} {fresh : Fresh} :
    (Ends (shouldKeep domains skipMinor evt) fun kept =>
      kept → Returns (normalize rt fresh evt)) ↔ Tame rt evt domains skipMinor := by
  rw [ends_shouldKeep, Tame, Returns, ends_normalize]
  simp only [and_true, if_true_right, decide_eq_true_eq]
  refine and_congr_right fun decides => forall_congr' fun kept => ?_
  exact ⟨fun returns => returns.2.2, fun tame => ⟨kept.1, (decides kept.1).1, tame⟩⟩

theorem gives_args {fresh : Fresh} {emitted : Emitted}
    (normalized : normalize rt fresh evt = .ok (some emitted)) :
    (args rt evt).Gives fresh emitted := by
  have ends := ends_eq_iff.mpr normalized
  rw [ends_normalize] at ends
  grind [ItemArgs.Sized.gives]

end Spec

end NewsAggregator.Ingest.Wikipedia
