import Mathlib.Data.Rat.Defs
import Mathlib.Order.Fin.Basic

/-! The `Item` every ingester emits and the `EnrichedItem` the inference worker
publishes. A schema class whose fields are checked on construction carries the
checks as fields; `Item` is mutated in place, so its caps are a predicate. -/

namespace NewsAggregator

/-- Identifiers are only ever compared. -/
abbrev Uuid := Nat

def maxTextLen : Nat := 8192
def maxUrls : Nat := 32
def maxEntities : Nat := 128
def maxRefLen : Nat := 256
def embedDim : Nat := 384

/-- One float32 per dimension. -/
abbrev Embedding := Fin embedDim → ℚ

/-- An aware datetime: microseconds since the epoch and the offset it was
written in, in seconds. -/
structure DateTime where
  instant : Int
  utcoffset : Int
  deriving DecidableEq

inductive SourceClass
  | authoritative
  | primary
  | social
  | mainstream
  | localNews
  deriving DecidableEq

def SourceClass.value : SourceClass → String
  | .authoritative => "authoritative"
  | .primary => "primary"
  | .social => "social"
  | .mainstream => "mainstream"
  | .localNews => "local_news"

inductive EntityType
  | person
  | org
  | place
  | other
  deriving DecidableEq

structure Geo where
  lat : ℚ
  lon : ℚ
  geohash : Option String := none
  latRange : -90 ≤ lat ∧ lat ≤ 90
  lonRange : -180 ≤ lon ∧ lon ≤ 180
  geohashCap : ∀ hash, geohash = some hash → hash.length ≤ 16
  deriving DecidableEq

structure Entity where
  text : String
  type : EntityType := .other
  geo : Option Geo := none
  textCap : text.length ≤ 256
  deriving DecidableEq

structure Item where
  id : Uuid
  source : String
  sourceClass : SourceClass
  tsObserved : DateTime
  tsEvent : Option DateTime := none
  lang : String := "und"
  text : String
  entities : List Entity := []
  geo : Option Geo := none
  urls : List String := []
  authorRef : String := ""
  parentRef : Option String := none
  contentHash : String := ""
  rawRef : String := ""
  deriving DecidableEq

/-- The caps the schema puts on a message. -/
def Item.Valid (item : Item) : Prop :=
  item.source.length ≤ 64 ∧ item.lang.length ≤ 8 ∧ item.text.length ≤ maxTextLen ∧
    item.entities.length ≤ maxEntities ∧ item.urls.length ≤ maxUrls ∧
    item.authorRef.length ≤ maxRefLen ∧ (∀ ref ∈ item.parentRef, ref.length ≤ maxRefLen) ∧
    item.contentHash.length ≤ maxRefLen ∧ item.rawRef.length ≤ maxRefLen

instance : DecidablePred Item.Valid := fun _ => inferInstanceAs (Decidable (_ ∧ _))

def Entity.key (entity : Entity) : String × EntityType := (entity.text, entity.type)

/-- One turn of the merge loop; the second component is the set `have`. -/
def mergeEntity (state : Item × List (String × EntityType)) (entity : Entity) :
    Item × List (String × EntityType) :=
  let (item, present) := state
  if entity.key ∈ present ∨ maxEntities ≤ item.entities.length then state
  else
    let geo := if item.geo.isNone ∧ entity.geo.isSome then entity.geo else item.geo
    ({ item with entities := item.entities ++ [entity], geo }, entity.key :: present)

def mergeEntities (item : Item) (entities : List Entity) : Item :=
  (entities.foldl mergeEntity (item, item.entities.map Entity.key)).1

/-- What `mergeEntities` leaves alone. -/
structure SameReport (before after : Item) : Prop where
  id : after.id = before.id
  source : after.source = before.source
  sourceClass : after.sourceClass = before.sourceClass
  tsObserved : after.tsObserved = before.tsObserved
  text : after.text = before.text
  contentHash : after.contentHash = before.contentHash

theorem mergeEntity_same (state : Item × List (String × EntityType)) (entity : Entity) :
    SameReport state.1 (mergeEntity state entity).1 := by
  obtain ⟨item, present⟩ := state
  simp only [mergeEntity]
  split <;> exact ⟨rfl, rfl, rfl, rfl, rfl, rfl⟩

theorem SameReport.trans {first second third : Item} (left : SameReport first second)
    (right : SameReport second third) : SameReport first third :=
  ⟨right.id.trans left.id, right.source.trans left.source,
    right.sourceClass.trans left.sourceClass, right.tsObserved.trans left.tsObserved,
    right.text.trans left.text, right.contentHash.trans left.contentHash⟩

theorem mergeEntities_same (item : Item) (entities : List Entity) :
    SameReport item (mergeEntities item entities) := by
  have general : ∀ state : Item × List (String × EntityType),
      SameReport state.1 (entities.foldl mergeEntity state).1 := by
    induction entities with
    | nil => exact fun _ => ⟨rfl, rfl, rfl, rfl, rfl, rfl⟩
    | cons entity rest ih =>
      exact fun state => (mergeEntity_same state entity).trans (ih (mergeEntity state entity))
  exact general (item, item.entities.map Entity.key)

structure EnrichedItem where
  item : Item
  embedding : Embedding
  exploration : Bool := false

/-- An official notice. -/
def notice (id : Uuid) (source text : String) : Item where
  id := id
  source := source
  sourceClass := .authoritative
  tsObserved := ⟨id, 0⟩
  text := text

end NewsAggregator
