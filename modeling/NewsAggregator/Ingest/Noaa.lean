import NewsAggregator.Ingest.Emission

/-! The active alerts of the weather service. -/

namespace NewsAggregator.Ingest.Noaa

open Foundation

def source : PyStr := PyStr.of "noaa"

def maxAreaEntities : ℕ := 32

/-- A point in range: the longitude and the latitude. -/
abbrev Position := {x : ℚ // -180 ≤ x ∧ x ≤ 180} × {x : ℚ // -90 ≤ x ∧ x ≤ 90}

section Code

variable (rt : Runtime)

def parseDt (value : PyValue) : Option DateTime := (parseIso rt value id).bind ParsedTime.kept

def dedupKey (feature : PyValue) : Except PyError PyStr := do
  let feature ← asDict feature
  let props ← orDict (feature.get "properties")
  return toStr rt (props.getOr "id" (.str [])) ++ PyStr.of ":" ++
    toStr rt (props.getOr "sent" (.str []))

/-- `float(pt[0]), float(pt[1])` -/
def readPair (pt : PyValue) : Except PyError (PyFloat × PyFloat) := do
  let first ← subscript pt 0
  let lon ← toFloat rt first
  let second ← subscript pt 1
  let lat ← toFloat rt second
  return (lon, lat)

/-- The point, `None` where the loop goes on without it. -/
def readPoint (pt : PyValue) : Except PyError (Option Position) :=
  tryExcept PyError.typeValueOrIndex
    (do
      let pair ← readPair rt pt
      return do
        let lon ← pair.1.within 180
        let lat ← pair.2.within 90
        return (lon, lat))
    none

theorem mean_position (pts : List Position) (nonempty : pts ≠ []) :
    (-90 ≤ rt.mean (pts.map fun pt => pt.2.1) ∧ rt.mean (pts.map fun pt => pt.2.1) ≤ 90) ∧
      -180 ≤ rt.mean (pts.map fun pt => pt.1.1) ∧ rt.mean (pts.map fun pt => pt.1.1) ≤ 180 := by
  constructor
  · refine rt.mean_between 90 (by simp) _ (by simpa using nonempty) fun x member => ?_
    obtain ⟨pt, _, rfl⟩ := List.mem_map.mp member
    exact pt.2.2
  · refine rt.mean_between 180 (by simp) _ (by simpa using nonempty) fun x member => ?_
    obtain ⟨pt, _, rfl⟩ := List.mem_map.mp member
    exact pt.1.2

def meanOf (pts : List Position) : Option Geo :=
  if nonempty : pts ≠ [] then
    some (pointGeo _ _ (mean_position rt pts nonempty).1 (mean_position rt pts nonempty).2)
  else none

def IsPolygon (geom : PyValue) : Prop := geom.isDict ∧ (geom.get "type").IsText "Polygon"

instance : DecidablePred IsPolygon := fun _ => inferInstanceAs (Decidable (_ ∧ _))

/-- The exterior ring, if it is a list. -/
def ring (geom : PyValue) : List PyValue :=
  (geom.get "coordinates").items.head?.elim [] PyValue.items

def centroid (geom : PyValue) : Except PyError (Option Geo) :=
  if IsPolygon geom then do
    let pts ← (ring geom).mapM (readPoint rt)
    return meanOf rt pts.reduceOption
  else return none

/-- The headline, else the event and area, else the event. -/
def claimText (props : PyValue) : PyStr :=
  let headline := props.get "headline"
  let event := props.get "event"
  let area := props.get "areaDesc"
  if headline.truthy then toStr rt headline
  else if area.truthy then toStr rt event ++ PyStr.of " - " ++ toStr rt area
  else toStr rt event

/-- An actual alert with a headline or an event. -/
def Actual (props : PyValue) : Prop :=
  (props.get "status").IsText "Actual" ∧
    ((props.get "headline").truthy ∨ (props.get "event").truthy)

instance : DecidablePred Actual := fun _ => inferInstanceAs (Decidable (_ ∧ _))

def areas (props : PyValue) : List PyStr :=
  namedParts rt (props.get "areaDesc").chars ';' maxAreaEntities

def urn (feature : PyValue) : PyStr :=
  (toStr rt ((((feature.get "properties").get "id").orElse (feature.get "id")).orElse
    (.str []))).take 256

def itemArgs (feature : PyValue) (geo : Option Geo) (entities : List Entity) : ItemArgs :=
  let props := feature.get "properties"
  let fid := (feature.get "id").chars
  { source := source
    sourceClass := .authoritative
    tsEvent := ((parseDt rt (props.get "onset")).or (parseDt rt (props.get "effective"))).or
      (parseDt rt (props.get "sent"))
    text := (claimText rt props).take maxTextLen
    geo := geo
    entities := entities
    urls := linkIf (fid.startsWith "http") fid
    contentHash := urn rt feature
    rawRef := urn rt feature }

def normalize (fresh : Fresh) (feature : PyValue) : Except PyError (Option Emitted) := do
  let feature ← asDict feature
  let props ← orDict (feature.get "properties")
  if Actual props then
    let geo ← centroid rt (feature.get "geometry")
    let entities ← (areas rt props).mapM (place none)
    if urn rt feature ≠ [] then
      let item ← (itemArgs rt feature geo entities).validate fresh
      return some item
    else return none
  else return none

end Code

section Spec

variable (rt : Runtime) (feature : PyValue)

/-- A point whose reading raises what is not caught: a dictionary, or an integer
beyond the doubles where a number is read. -/
def Unreadable (pt : PyValue) : Prop :=
  pt.isDict ∨
    match pt.items with
    | first :: second :: _ => PairOverflows rt first second
    | [first] => Overflows rt first
    | [] => False

theorem escapes_readPair {pt : PyValue} :
    Escapes PyError.typeValueOrIndex (readPair rt pt) ↔ Unreadable rt pt := by
  have floats (value : PyValue) :
      Escapes PyError.typeValueOrIndex (toFloat rt value) ↔ Overflows rt value :=
    escapes_toFloat PyError.typeValueOrIndex rfl rfl rfl
  have caught : PyError.typeValueOrIndex .indexError = true ∧
      PyError.typeValueOrIndex .typeError = true ∧ PyError.typeValueOrIndex .keyError = false :=
    ⟨rfl, rfl, rfl⟩
  cases pt with
  | list items =>
    cases items with
    | nil => simp [readPair, subscript, Unreadable, PyValue.isDict, PyValue.items, caught]
    | cons first rest =>
      cases rest with
      | nil =>
        simp [readPair, subscript, Unreadable, PyValue.isDict, PyValue.items, floats, caught,
          ends_const]
      | cons second more =>
        simp [readPair, subscript, Unreadable, PyValue.isDict, PyValue.items, floats, PairOverflows,
          ends_const]
  | str s =>
    -- What a string gives is a string again, and no integer.
    cases s with
    | nil => simp [readPair, subscript, Unreadable, PyValue.isDict, PyValue.items, caught]
    | cons first rest =>
      cases rest <;>
        simp [readPair, subscript, Unreadable, PyValue.isDict, PyValue.items, floats, Overflows,
          caught, ends_const]
  | _ => simp [readPair, subscript, Unreadable, PyValue.isDict, PyValue.items, caught]

/-- The points of the ring are readable. -/
def Located (geom : PyValue) : Prop := IsPolygon geom → ∀ pt ∈ ring geom, ¬ Unreadable rt pt

theorem ends_centroid {geom : PyValue} {property : Option Geo → Prop} :
    Ends (centroid rt geom) property ↔
      Located rt geom ∧ property (recovered (centroid rt geom) none) := by
  have points {pt : PyValue} : Returns (readPoint rt pt) ↔ ¬ Unreadable rt pt := by
    simp [readPoint, Returns, escapes_readPair]
  have returns : Returns (centroid rt geom) ↔ Located rt geom := by
    rw [centroid, Located]
    split
    · rename_i polygon
      simp only [Returns, ends_bind, ends_mapM none, ends_pure, and_true]
      exact ⟨fun all _ pt member => points.mp (all pt member),
        fun all pt member => points.mpr (all polygon pt member)⟩
    · simp [Returns, *]
  rw [ends_iff_recovered none, returns]

/-- The names of the areas encode. -/
def AreasEncode (props : PyValue) : Prop :=
  ∀ part ∈ areas rt props, PyStr.Encodes (part.take 256)

/-- The text and the urn encode. -/
def Clean : Prop :=
  PyStr.Encodes ((claimText rt (feature.get "properties")).take maxTextLen) ∧
    (urn rt feature).Encodes

abbrev geoOf : Option Geo := recovered (centroid rt (feature.get "geometry")) none

abbrev args : ItemArgs :=
  itemArgs rt feature (geoOf rt feature)
    ((areas rt (feature.get "properties")).map (placeOf none))

theorem sized_args : (args rt feature).Sized := by
  have named : "noaa".length ≤ 64 := by decide
  have few : (args rt feature).entities.length ≤ maxEntities := by
    simp only [itemArgs, List.length_map]
    exact (length_namedParts_le ..).trans (by decide)
  refine ⟨?_, ?_, List.length_take_le _ _, few, length_linkIf_le, Nat.zero_le _, by simp [itemArgs],
    List.length_take_le _ _, List.length_take_le _ _⟩
  · simpa [itemArgs, source] using named
  · simp [itemArgs]

theorem encoded_args : (args rt feature).Encoded ↔ Clean rt feature := by
  simp [ItemArgs.Encoded, itemArgs, source, Clean]

theorem returns_dedupKey : Returns (dedupKey rt feature) ↔
    feature.isDict ∧ (feature.get "properties").OrDict := by
  simp [Returns, dedupKey]

theorem ends_normalize {fresh : Fresh} {property : Option Emitted → Prop} :
    Ends (normalize rt fresh feature) property ↔
      feature.isDict ∧ (feature.get "properties").OrDict ∧
        if Actual (feature.get "properties") then
          Located rt (feature.get "geometry") ∧ AreasEncode rt (feature.get "properties") ∧
            if urn rt feature ≠ [] then
              Clean rt feature ∧ property (some ((sized_args rt feature).emitted fresh))
            else property none
        else property none := by
  simp only [normalize, ends_bind, ends_asDict, ends_orDict, ends_ite, ends_pure, ends_centroid,
    ends_places, ItemArgs.ends_validate_of_sized (sized_args rt feature), encoded_args,
    AreasEncode]

/-- The features both functions return on. -/
def Tame : Prop :=
  feature.isDict ∧ (feature.get "properties").OrDict ∧
    (Actual (feature.get "properties") →
      Located rt (feature.get "geometry") ∧ AreasEncode rt (feature.get "properties") ∧
        (urn rt feature ≠ [] → Clean rt feature))

theorem returns_iff {fresh : Fresh} :
    (Returns (dedupKey rt feature) ∧ Returns (normalize rt fresh feature)) ↔ Tame rt feature := by
  rw [returns_dedupKey, Returns, ends_normalize, Tame]
  simp only [and_true, if_true_right]
  exact ⟨And.right, fun tame => ⟨⟨tame.1, tame.2.1⟩, tame⟩⟩

theorem gives_args {fresh : Fresh} {emitted : Emitted}
    (normalized : normalize rt fresh feature = .ok (some emitted)) :
    (args rt feature).Gives fresh emitted := by
  have ends := ends_eq_iff.mpr normalized
  rw [ends_normalize] at ends
  grind [ItemArgs.Sized.gives]

end Spec

end NewsAggregator.Ingest.Noaa
