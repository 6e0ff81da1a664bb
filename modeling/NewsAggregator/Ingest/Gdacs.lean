import NewsAggregator.Ingest.Emission

/-! The GDACS event list. -/

namespace NewsAggregator.Ingest.Gdacs

open Foundation

def source : PyStr := PyStr.of "gdacs"

def maxCountryEntities : ℕ := 16

section Code

variable (rt : Runtime)

def parseDt (value : PyValue) : Option DateTime := (parseIso rt value id).map ParsedTime.time

def dedupKey (feature : PyValue) : Except PyError PyStr := do
  let feature ← asDict feature
  let props ← orDict (feature.get "properties")
  let field name := toStr rt (props.getOr name (.str []))
  return field "eventtype" ++ PyStr.of ":" ++ field "eventid" ++ PyStr.of ":" ++
    field "episodeid" ++ PyStr.of ":" ++ field "datemodified"

def IsPoint (geom : PyValue) : Prop := geom.isDict ∧ (geom.get "type").IsText "Point"

instance : DecidablePred IsPoint := fun _ => inferInstanceAs (Decidable (_ ∧ _))

def point (geom : PyValue) : Except PyError (Option Geo) :=
  if IsPoint geom then pointOf rt (geom.get "coordinates") else return none

def eventName (props : PyValue) : PyValue := (props.get "description").orElse (props.get "name")

/-- The name, after the alert level if it is a string. -/
def claimText (props : PyValue) : PyStr :=
  let alert := (props.get "alertlevel").chars
  if alert = [] then toStr rt (eventName props)
  else PyStr.of "GDACS " ++ alert ++ PyStr.of " alert: " ++ toStr rt (eventName props)

def countries (props : PyValue) : List PyStr :=
  namedParts rt (props.get "country").chars ',' maxCountryEntities

def key (props : PyValue) : PyStr :=
  (PyStr.of "gdacs:" ++ toStr rt (props.get "eventtype") ++ PyStr.of ":" ++
    toStr rt (props.get "eventid")).take 256

/-- There are an event type and an event id. -/
def Keyed (props : PyValue) : Prop :=
  (props.get "eventtype").truthy ∧ (props.get "eventid").isNone = false ∧
    ¬ (props.get "eventid").IsText ""

instance : DecidablePred Keyed := fun _ => inferInstanceAs (Decidable (_ ∧ _))

def itemArgs (props : PyValue) (geo : Option Geo) (entities : List Entity) : ItemArgs :=
  let report := ((props.get "url").get "report").chars
  { source := source
    sourceClass := .authoritative
    tsEvent := parseDt rt (props.get "fromdate")
    text := (claimText rt props).take maxTextLen
    geo := geo
    entities := entities
    urls := linkIf (report.startsWith "http") report
    contentHash := key rt props
    rawRef := key rt props }

def normalize (fresh : Fresh) (feature : PyValue) : Except PyError (Option Emitted) := do
  let feature ← asDict feature
  let props ← orDict (feature.get "properties")
  if (eventName props).truthy then
    let geo ← point rt (feature.get "geometry")
    let entities ← (countries rt props).mapM (place geo)
    if Keyed props then
      let item ← (itemArgs rt props geo entities).validate fresh
      return some item
    else return none
  else return none

end Code

section Spec

variable (rt : Runtime) (feature : PyValue)

/-- The point's coordinates convert. -/
def Located (geom : PyValue) : Prop := IsPoint geom → Locates rt (geom.get "coordinates")

theorem ends_point {geom : PyValue} {property : Option Geo → Prop} :
    Ends (point rt geom) property ↔
      Located rt geom ∧ property (recovered (point rt geom) none) := by
  have returns : Returns (point rt geom) ↔ Located rt geom := by
    rw [point, Located]
    split <;> simp [Returns, ends_pointOf, *]
  rw [ends_iff_recovered none, returns]

/-- The names of the countries encode. -/
def CountriesEncode (props : PyValue) : Prop :=
  ∀ part ∈ countries rt props, PyStr.Encodes (part.take 256)

/-- The text and the key encode. -/
def Clean (props : PyValue) : Prop :=
  PyStr.Encodes ((claimText rt props).take maxTextLen) ∧ (key rt props).Encodes

abbrev geoOf : Option Geo := recovered (point rt (feature.get "geometry")) none

abbrev args : ItemArgs :=
  itemArgs rt (feature.get "properties") (geoOf rt feature)
    ((countries rt (feature.get "properties")).map (placeOf (geoOf rt feature)))

theorem sized_args : (args rt feature).Sized := by
  have named : "gdacs".length ≤ 64 := by decide
  have few : (args rt feature).entities.length ≤ maxEntities := by
    simp only [itemArgs, List.length_map]
    exact (length_namedParts_le ..).trans (by decide)
  refine ⟨?_, ?_, List.length_take_le _ _, few, length_linkIf_le, Nat.zero_le _, by simp [itemArgs],
    List.length_take_le _ _, List.length_take_le _ _⟩
  · simpa [itemArgs, source] using named
  · simp [itemArgs]

theorem encoded_args : (args rt feature).Encoded ↔ Clean rt (feature.get "properties") := by
  simp [ItemArgs.Encoded, itemArgs, source, Clean]

theorem returns_dedupKey : Returns (dedupKey rt feature) ↔
    feature.isDict ∧ (feature.get "properties").OrDict := by
  simp [Returns, dedupKey]

theorem ends_normalize {fresh : Fresh} {property : Option Emitted → Prop} :
    Ends (normalize rt fresh feature) property ↔
      feature.isDict ∧ (feature.get "properties").OrDict ∧
        if (eventName (feature.get "properties")).truthy then
          Located rt (feature.get "geometry") ∧ CountriesEncode rt (feature.get "properties") ∧
            if Keyed (feature.get "properties") then
              Clean rt (feature.get "properties") ∧
                property (some ((sized_args rt feature).emitted fresh))
            else property none
        else property none := by
  simp only [normalize, ends_bind, ends_asDict, ends_orDict, ends_ite, ends_pure, ends_point,
    ends_places, ItemArgs.ends_validate_of_sized (sized_args rt feature), encoded_args,
    CountriesEncode]

/-- The features both functions return on. -/
def Tame : Prop :=
  feature.isDict ∧ (feature.get "properties").OrDict ∧
    ((eventName (feature.get "properties")).truthy →
      Located rt (feature.get "geometry") ∧ CountriesEncode rt (feature.get "properties") ∧
        (Keyed (feature.get "properties") → Clean rt (feature.get "properties")))

theorem returns_iff {fresh : Fresh} :
    (Returns (dedupKey rt feature) ∧ Returns (normalize rt fresh feature)) ↔ Tame rt feature := by
  rw [returns_dedupKey, Returns, ends_normalize, Tame]
  simp only [and_true, if_true_right]
  exact ⟨And.right, fun tame => ⟨⟨tame.1, tame.2.1⟩, tame⟩⟩

theorem gives_args {fresh : Fresh} {emitted : Emitted}
    (normalized : normalize rt fresh feature = .ok (some emitted)) :
    (args rt feature).Gives fresh emitted := by
  have ends := ends_eq_iff.mpr normalized
  rw [ends_normalize] at ends
  grind [ItemArgs.Sized.gives]

end Spec

end NewsAggregator.Ingest.Gdacs
