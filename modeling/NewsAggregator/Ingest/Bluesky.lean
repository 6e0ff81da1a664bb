import NewsAggregator.Ingest.Emission

/-! The firehose of Bluesky posts. -/

namespace NewsAggregator.Ingest.Bluesky

open Foundation

def source : PyStr := PyStr.of "bluesky"

def postCollection : String := "app.bsky.feed.post"

section Facets

/-- The link of a feature, if it is new. -/
def addFeature (urls : List PyStr) (feat : PyValue) : List PyStr :=
  let uri := feat.get "uri"
  if uri.isStr ∧ uri.chars.startsWith "http" ∧ uri.chars ∉ urls then
    urls ++ [uri.chars.take 2048]
  else urls

/-- The features of one facet, up to the cap. -/
def collectFeatures (urls : List PyStr) : List PyValue → List PyStr
  | [] => urls
  | feat :: rest =>
    if maxUrls ≤ (addFeature urls feat).length then addFeature urls feat
    else collectFeatures (addFeature urls feat) rest

/-- The facets in turn; what is no dictionary is passed over. -/
def collectFacets (urls : List PyStr) : List PyValue → Except PyError (List PyStr)
  | [] => return urls
  | facet :: rest =>
    if facet.isDict then do
      let features ← orElements (facet.get "features")
      if maxUrls ≤ (collectFeatures urls features).length then return collectFeatures urls features
      else collectFacets (collectFeatures urls features) rest
    else collectFacets urls rest

def facetUrls (record : PyValue) : Except PyError (List PyStr) := do
  let facets ← orElements (record.get "facets")
  collectFacets [] facets

end Facets

section Code

variable (rt : Runtime)

def uriKey (uri : PyStr) : Except PyError PyStr := do
  let hash ← digest rt uri 40
  return PyStr.of "bsky:" ++ hash

/-- The text of a record is a string that is not blank. -/
def Worded (record : PyValue) : Prop :=
  (record.get "text").isStr ∧ stripStr rt (record.get "text").chars ≠ []

instance : DecidablePred (Worded rt) := fun _ => inferInstanceAs (Decidable (_ ∧ _))

def IsCommit (evt : PyValue) : Prop := evt.isDict ∧ (evt.get "kind").IsText "commit"

def Creates (commit : PyValue) : Prop :=
  (commit.get "operation").IsText "create" ∧ (commit.get "collection").IsText postCollection

instance : DecidablePred IsCommit := fun _ => inferInstanceAs (Decidable (_ ∧ _))

instance : DecidablePred Creates := fun _ => inferInstanceAs (Decidable (_ ∧ _))

/-- One of the languages is listed. -/
def speaks (langs : List PyStr) (record : PyValue) : Bool :=
  (record.get "langs").items.any fun lang => decide (primaryTag rt (toStr rt lang) ∈ langs)

def shouldKeep (langs : List PyStr) (evt : PyValue) : Except PyError Bool :=
  if IsCommit evt then do
    let commit ← orDict (evt.get "commit")
    if Creates commit then
      let record ← orDict (commit.get "record")
      if Worded rt record ∧ (record.get "langs").isList then
        return speaks rt langs record
      else return false
    else return false
  else return false

def parseDt (value : PyValue) : Option DateTime :=
  (parseIso rt value PyStr.zulu).bind ParsedTime.kept

/-- The first language, if it is a string. -/
def langOf (record : PyValue) : PyStr :=
  match (record.get "langs").items with
  | .str lang :: _ => (rt.lowerAll lang).take 8
  | _ => PyStr.of "und"

/-- The key of the parent, if there is one. -/
def parentRef (uri : PyStr) : Except PyError (Option PyStr) :=
  if uri ≠ [] then do
    let key ← uriKey rt uri
    return some key
  else return none

abbrev recordOf (evt : PyValue) : PyValue := (evt.get "commit").get "record"

def atUri (evt : PyValue) : PyStr :=
  PyStr.of "at://" ++ (evt.get "did").chars ++ PyStr.of ("/" ++ postCollection ++ "/") ++
    toStr rt ((evt.get "commit").get "rkey")

def itemArgs (evt : PyValue) (urls : List PyStr) (authorRef : PyStr) (parent : Option PyStr)
    (hash : PyStr) : ItemArgs :=
  let record := recordOf evt
  { source := source
    sourceClass := .social
    tsEvent := parseDt rt (record.get "createdAt")
    lang := langOf rt record
    text := (record.get "text").chars.take maxTextLen
    urls := urls
    authorRef := authorRef
    parentRef := parent
    contentHash := hash
    rawRef := (toStr rt ((evt.get "commit").getOr "cid" (.str []))).take 256 }

/-- The event names its author and record, and has a text. -/
def Usable (evt : PyValue) : Prop :=
  (evt.get "did").isStr ∧ ((evt.get "commit").get "rkey").truthy ∧ Worded rt (recordOf evt)

instance : DecidablePred (Usable rt) := fun _ => inferInstanceAs (Decidable (_ ∧ _))

def normalize (fresh : Fresh) (evt : PyValue) : Except PyError (Option Emitted) := do
  let evt ← asDict evt
  let commit ← orDict (evt.get "commit")
  let record ← orDict (commit.get "record")
  if Usable rt evt then
    let reply ← orDict (record.get "reply")
    let parent ← orDict (reply.get "parent")
    let parent ← parentRef rt (parent.get "uri").chars
    let urls ← facetUrls record
    let authorRef ← digest rt (evt.get "did").chars 32
    let hash ← uriKey rt (atUri rt evt)
    let item ← (itemArgs rt evt urls authorRef parent hash).validate fresh
    return some item
  else return none

end Code

section Links

/-- The links of a list of facets. -/
def facetLinks (urls : List PyStr) : List PyValue → List PyStr
  | [] => urls
  | facet :: rest =>
    if facet.isDict then
      let found := collectFeatures urls (facet.get "features").elements
      if maxUrls ≤ found.length then found else facetLinks found rest
    else facetLinks urls rest

/-- The features of every facet the loop comes to can be run over. -/
def FacetsIterate (urls : List PyStr) : List PyValue → Prop
  | [] => True
  | facet :: rest =>
    if facet.isDict then
      let found := collectFeatures urls (facet.get "features").elements
      (facet.get "features").OrIterable ∧ (found.length < maxUrls → FacetsIterate found rest)
    else FacetsIterate urls rest

theorem ends_collectFacets {facets : List PyValue} (urls : List PyStr)
    {property : List PyStr → Prop} :
    Ends (collectFacets urls facets) property ↔
      FacetsIterate urls facets ∧ property (facetLinks urls facets) := by
  induction facets generalizing urls with
  | nil => simp [collectFacets, FacetsIterate, facetLinks]
  | cons facet rest ih =>
    rw [collectFacets, FacetsIterate, facetLinks]
    by_cases dict : facet.isDict
    · by_cases full : maxUrls ≤ (collectFeatures urls (facet.get "features").elements).length
      · simp [dict, full]
      · simp [dict, full, ih, not_le.mp full, and_assoc]
    · simp [dict, ih]

/-- The links of a record. -/
def links (record : PyValue) : List PyStr := facetLinks [] (record.get "facets").elements

theorem length_addFeature_le (urls : List PyStr) (feat : PyValue) :
    (addFeature urls feat).length ≤ urls.length + 1 := by
  unfold addFeature
  dsimp only
  split <;> simp

theorem length_collectFeatures_le {urls : List PyStr} (room : urls.length < maxUrls)
    (features : List PyValue) : (collectFeatures urls features).length ≤ maxUrls := by
  induction features generalizing urls with
  | nil => exact room.le
  | cons feat rest ih =>
    have grown := length_addFeature_le urls feat
    rw [collectFeatures]
    split
    · omega
    · exact ih (by omega)

theorem length_facetLinks_le {urls : List PyStr} (room : urls.length < maxUrls)
    (facets : List PyValue) : (facetLinks urls facets).length ≤ maxUrls := by
  induction facets generalizing urls with
  | nil => exact room.le
  | cons facet rest ih =>
    have found := length_collectFeatures_le room (facet.get "features").elements
    rw [facetLinks]
    dsimp only
    split
    · split
      · exact found
      · exact ih (by omega)
    · exact ih room

end Links

section Spec

variable (rt : Runtime) (evt : PyValue)

/-- What decides on a commit can be read. -/
def Decides : Prop :=
  IsCommit evt → (evt.get "commit").OrDict ∧ (Creates (evt.get "commit") → (recordOf evt).OrDict)

/-- The event is kept: a created post with a text in a listed language. -/
def Kept (langs : List PyStr) : Prop :=
  IsCommit evt ∧ Creates (evt.get "commit") ∧
    (Worded rt (recordOf evt) ∧ ((recordOf evt).get "langs").isList) ∧
    speaks rt langs (recordOf evt)

instance (langs : List PyStr) : Decidable (Kept rt evt langs) :=
  inferInstanceAs (Decidable (_ ∧ _))

theorem ends_shouldKeep {langs : List PyStr} {property : Bool → Prop} :
    Ends (shouldKeep rt langs evt) property ↔
      Decides evt ∧ property (decide (Kept rt evt langs)) := by
  unfold shouldKeep Decides Kept recordOf
  by_cases commit : IsCommit evt
  · by_cases creates : Creates (evt.get "commit")
    · by_cases worded : Worded rt (recordOf evt) ∧ ((recordOf evt).get "langs").isList
      · simp [commit, creates, worded, ends_ite, and_assoc]
      · simp only [commit, creates, worded, if_true, if_false, ends_bind, ends_orDict, ends_pure]
        simp [and_assoc]
    · simp [commit, creates]
  · simp [commit]

/-- The parent of a reply. -/
abbrev parentOf : PyValue := ((recordOf evt).get "reply").get "parent"

/-- What a usable event is read by can be read, and its strings encode. -/
def Clean : Prop :=
  ((recordOf evt).get "reply").OrDict ∧ (parentOf evt).OrDict ∧
    ((parentOf evt).get "uri").chars.Encodes ∧ ((recordOf evt).get "facets").OrIterable ∧
    FacetsIterate [] ((recordOf evt).get "facets").elements ∧ (evt.get "did").chars.Encodes ∧
    (toStr rt ((evt.get "commit").get "rkey")).Encodes ∧ (langOf rt (recordOf evt)).Encodes ∧
    PyStr.Encodes (((recordOf evt).get "text").chars.take maxTextLen) ∧
    PyStr.Encodes ((toStr rt ((evt.get "commit").getOr "cid" (.str []))).take 256)

def uriKeyOf (uri : PyStr) : PyStr := PyStr.of "bsky:" ++ digestOf rt uri 40

def parentKey (uri : PyStr) : Option PyStr := if uri ≠ [] then some (uriKeyOf rt uri) else none

theorem ends_uriKey {uri : PyStr} {property : PyStr → Prop} :
    Ends (uriKey rt uri) property ↔ uri.Encodes ∧ property (uriKeyOf rt uri) := by
  simp [uriKey, uriKeyOf]

theorem ends_parentRef {uri : PyStr} {property : Option PyStr → Prop} :
    Ends (parentRef rt uri) property ↔ uri.Encodes ∧ property (parentKey rt uri) := by
  rw [parentRef, parentKey]
  by_cases empty : uri = []
  · simp [empty]
  · simp [empty, ends_uriKey]

theorem ends_facetUrls {record : PyValue} {property : List PyStr → Prop} :
    Ends (facetUrls record) property ↔ (record.get "facets").OrIterable ∧
      FacetsIterate [] (record.get "facets").elements ∧ property (links record) := by
  simp [facetUrls, ends_collectFacets, links]

theorem uriKeyOf_capped (uri : PyStr) :
    (uriKeyOf rt uri).Encodes ∧ (uriKeyOf rt uri).length ≤ maxRefLen := by
  have head : "bsky:".length = 5 := by decide
  have digits := length_digestOf_le rt uri 40
  constructor
  · simp [uriKeyOf]
  · simp only [uriKeyOf, List.length_append, PyStr.length_of, head, maxRefLen]
    omega

abbrev args : ItemArgs :=
  itemArgs rt evt (links (recordOf evt)) (digestOf rt (evt.get "did").chars 32)
    (parentKey rt ((parentOf evt).get "uri").chars) (uriKeyOf rt (atUri rt evt))

theorem length_langOf_le (record : PyValue) : (langOf rt record).length ≤ 8 := by
  rw [langOf]
  split
  · exact List.length_take_le 8 _
  · simp

theorem parentKey_capped {uri ref : PyStr} (present : parentKey rt uri = some ref) :
    ref.Encodes ∧ ref.length ≤ maxRefLen := by
  unfold parentKey at present
  split at present
  · obtain rfl := Option.some.inj present
    exact uriKeyOf_capped rt uri
  · cases present

theorem sized_args : (args rt evt).Sized := by
  have named : "bluesky".length ≤ 64 := by decide
  refine ⟨?_, length_langOf_le .., List.length_take_le _ _, Nat.zero_le _,
    length_facetLinks_le (by decide) _, (length_digestOf_le _ _ _).trans (by decide),
    fun ref present => (parentKey_capped rt present).2, (uriKeyOf_capped ..).2,
    List.length_take_le _ _⟩
  simpa [itemArgs, source] using named

theorem ends_normalize {fresh : Fresh} {property : Option Emitted → Prop} :
    Ends (normalize rt fresh evt) property ↔
      evt.isDict ∧ (evt.get "commit").OrDict ∧ (recordOf evt).OrDict ∧
        if Usable rt evt then
          Clean rt evt ∧ property (some ((sized_args rt evt).emitted fresh))
        else property none := by
  have encoded : (args rt evt).Encoded ↔ (langOf rt (recordOf evt)).Encodes ∧
      PyStr.Encodes (((recordOf evt).get "text").chars.take maxTextLen) ∧
      PyStr.Encodes ((toStr rt ((evt.get "commit").getOr "cid" (.str []))).take 256) := by
    have parent : ∀ ref, parentKey rt ((parentOf evt).get "uri").chars = some ref → ref.Encodes :=
      fun ref present => (parentKey_capped rt present).1
    simpa [ItemArgs.Encoded, itemArgs, source, uriKeyOf_capped] using fun _ _ _ => parent
  have address : (atUri rt evt).Encodes ↔
      (evt.get "did").chars.Encodes ∧ (toStr rt ((evt.get "commit").get "rkey")).Encodes := by
    simp [atUri]
  simp only [normalize, ends_bind, ends_asDict, ends_orDict, ends_ite, ends_pure, ends_parentRef,
    ends_facetUrls, ends_digest, ends_uriKey, address, and_self_left,
    ItemArgs.ends_validate_of_sized (sized_args rt evt), encoded, Clean, and_assoc]

/-- The events both functions return on. -/
def Tame (langs : List PyStr) : Prop :=
  Decides evt ∧ (Kept rt evt langs → Usable rt evt → Clean rt evt)

theorem returns_iff {langs : List PyStr} {fresh : Fresh} :
    (Ends (shouldKeep rt langs evt) fun kept => kept → Returns (normalize rt fresh evt)) ↔
      Tame rt evt langs := by
  rw [ends_shouldKeep, Tame, Returns, ends_normalize]
  simp only [and_true, if_true_right, decide_eq_true_eq]
  refine and_congr_right fun decides => forall_congr' fun kept => ?_
  obtain ⟨commit, record⟩ := decides kept.1
  exact ⟨fun returns => returns.2.2.2, fun tame => ⟨kept.1.1, commit, record kept.2.1, tame⟩⟩

theorem gives_args {fresh : Fresh} {emitted : Emitted}
    (normalized : normalize rt fresh evt = .ok (some emitted)) :
    (args rt evt).Gives fresh emitted := by
  have ends := ends_eq_iff.mpr normalized
  rw [ends_normalize] at ends
  grind [ItemArgs.Sized.gives]

end Spec

end NewsAggregator.Ingest.Bluesky
