import NewsAggregator.Ingest.Emission

/-! The USGS earthquake feed. -/

namespace NewsAggregator.Ingest.Usgs

open Foundation

def source : PyStr := PyStr.of "usgs"

section Code

variable (rt : Runtime)

def msToDt (ms : PyValue) : Except PyError (Option DateTime) :=
  if ms.isNumber then do
    let number ← toFloat rt ms
    let time ← rt.fromtimestamp (rt.thousandth number)
    return some time
  else return none

def dedupKey (feature : PyValue) : Except PyError PyStr := do
  let feature ← asDict feature
  let fid := toStr rt (feature.getOr "id" (.str []))
  let props ← orDict (feature.get "properties")
  let updated := props.getOr "updated" (.str [])
  return fid ++ PyStr.of ":" ++ toStr rt updated

/-- The title, else the magnitude and place, else the place. -/
def claimText (props : PyValue) : PyStr :=
  let title := props.get "title"
  let place := props.get "place"
  let mag := props.get "mag"
  if title.truthy then toStr rt title
  else if mag.isNone then toStr rt place
  else PyStr.of "M" ++ toStr rt mag ++ PyStr.of " - " ++ toStr rt place

/-- The place as an entity. -/
def places (geo : Option Geo) (place : PyValue) : Except PyError (List Entity) :=
  if place.truthy then do
    let entity ← Ingest.place geo (toStr rt place)
    return [entity]
  else return []

def itemArgs (feature : PyValue) (geo : Option Geo) (entities : List Entity)
    (tsEvent : Option DateTime) : ItemArgs :=
  let props := feature.get "properties"
  let url := (props.get "url").chars
  let fid := (toStr rt (feature.getOr "id" (.str []))).take 256
  { source := source
    sourceClass := .authoritative
    tsEvent := tsEvent
    text := (claimText rt props).take 8192
    geo := geo
    entities := entities
    urls := linkIf (url ≠ []) url
    contentHash := fid
    rawRef := fid }

def normalize (fresh : Fresh) (feature : PyValue) : Except PyError (Option Emitted) := do
  let feature ← asDict feature
  let props ← orDict (feature.get "properties")
  let geom ← orDict (feature.get "geometry")
  if (props.get "title").truthy ∨ (props.get "place").truthy then
    let geo ← pointOf rt (geom.get "coordinates")
    let entities ← places rt geo (props.get "place")
    let tsEvent ← msToDt rt (props.get "time")
    let item ← (itemArgs rt feature geo entities tsEvent).validate fresh
    return some item
  else return none

end Code

section Spec

variable (rt : Runtime) (feature : PyValue)

/-- The time is no number, or one of a date. -/
def Dated (ms : PyValue) : Prop :=
  ms.isNumber →
    Ends (toFloat rt ms) fun number => Returns (rt.fromtimestamp (rt.thousandth number))

theorem ends_msToDt {ms : PyValue} {property : Option DateTime → Prop} :
    Ends (msToDt rt ms) property ↔
      Dated rt ms ∧ property (recovered (msToDt rt ms) none) := by
  have returns : Returns (msToDt rt ms) ↔ Dated rt ms := by
    rw [msToDt, Dated]
    split <;> simp [Returns, *]
  rw [ends_iff_recovered none, returns]

theorem ends_places {geo : Option Geo} {place : PyValue} {property : List Entity → Prop} :
    Ends (places rt geo place) property ↔
      (place.truthy → PyStr.Encodes ((toStr rt place).take 256)) ∧
        property (if place.truthy then [placeOf geo (toStr rt place)] else []) := by
  rw [places]
  split <;> simp [Ingest.place, *]

/-- The values whose attributes are looked up are dictionaries or falsy. -/
def Readable : Prop :=
  feature.isDict ∧ (feature.get "properties").OrDict ∧ (feature.get "geometry").OrDict

def Named (props : PyValue) : Prop := (props.get "title").truthy ∨ (props.get "place").truthy

instance : DecidablePred Named := fun _ => inferInstanceAs (Decidable (_ ∨ _))

/-- The numbers of a named feature convert and its strings encode. -/
def Clean : Prop :=
  Locates rt ((feature.get "geometry").get "coordinates") ∧
    (((feature.get "properties").get "place").truthy →
      PyStr.Encodes ((toStr rt ((feature.get "properties").get "place")).take 256)) ∧
    Dated rt ((feature.get "properties").get "time") ∧
    PyStr.Encodes ((claimText rt (feature.get "properties")).take 8192) ∧
    PyStr.Encodes ((toStr rt (feature.getOr "id" (.str []))).take 256)

/-- The point of a feature. -/
abbrev geoOf : Option Geo :=
  recovered (pointOf rt ((feature.get "geometry").get "coordinates")) none

/-- What a named feature makes an item of. -/
abbrev args : ItemArgs :=
  itemArgs rt feature (geoOf rt feature)
    (if ((feature.get "properties").get "place").truthy then
      [placeOf (geoOf rt feature) (toStr rt ((feature.get "properties").get "place"))] else [])
    (recovered (msToDt rt ((feature.get "properties").get "time")) none)

theorem sized_args : (args rt feature).Sized := by
  have named : "usgs".length ≤ 64 := by decide
  have few : (args rt feature).entities.length ≤ maxEntities := by
    simp only [itemArgs]
    split <;> simp [maxEntities]
  refine ⟨?_, ?_, List.length_take_le _ _, few, length_linkIf_le, Nat.zero_le _, by simp [itemArgs],
    List.length_take_le _ _, List.length_take_le _ _⟩
  · simpa [itemArgs, source] using named
  · simp [itemArgs]

theorem encoded_args : (args rt feature).Encoded ↔
    PyStr.Encodes ((claimText rt (feature.get "properties")).take 8192) ∧
      PyStr.Encodes ((toStr rt (feature.getOr "id" (.str []))).take 256) := by
  simp [ItemArgs.Encoded, itemArgs, source]

theorem returns_dedupKey : Returns (dedupKey rt feature) ↔
    feature.isDict ∧ (feature.get "properties").OrDict := by
  simp [Returns, dedupKey]

theorem ends_normalize {fresh : Fresh} {property : Option Emitted → Prop} :
    Ends (normalize rt fresh feature) property ↔ Readable feature ∧
      if Named (feature.get "properties") then
        Clean rt feature ∧ property (some ((sized_args rt feature).emitted fresh))
      else property none := by
  simp only [normalize, ends_bind, ends_asDict, ends_orDict, ends_ite, ends_pure, ends_pointOf,
    ends_places, ends_msToDt, ItemArgs.ends_validate_of_sized (sized_args rt feature),
    encoded_args, Readable, Named, Clean, and_assoc]

/-- The features both functions return on. -/
def Tame : Prop := Readable feature ∧ (Named (feature.get "properties") → Clean rt feature)

theorem returns_iff {fresh : Fresh} :
    (Returns (dedupKey rt feature) ∧ Returns (normalize rt fresh feature)) ↔ Tame rt feature := by
  rw [returns_dedupKey, Returns, ends_normalize, Tame]
  simp only [and_true, if_true_right]
  exact ⟨And.right, fun tame => ⟨⟨tame.1.1, tame.1.2.1⟩, tame⟩⟩

theorem gives_args {fresh : Fresh} {emitted : Emitted}
    (normalized : normalize rt fresh feature = .ok (some emitted)) :
    (args rt feature).Gives fresh emitted := by
  have ends := ends_eq_iff.mpr normalized
  rw [ends_normalize] at ends
  grind [ItemArgs.Sized.gives]

end Spec

end NewsAggregator.Ingest.Usgs
