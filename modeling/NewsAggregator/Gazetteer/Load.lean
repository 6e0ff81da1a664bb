import NewsAggregator.Gazetteer.Matcher

/-! The gazetteer a replica starts with: the seed, and the rows of the file over it. -/

namespace NewsAggregator

/-- A row of the file: `type` and `canonical` have defaults. -/
structure GazRow where
  phrase : String
  canonical : Option String := none
  type : Option String := none
  lat : Option ℚ := none
  lon : Option ℚ := none

/-- `EntityType(value)`. -/
def EntityType.parse : String → Option EntityType
  | "person" => some .person
  | "org" => some .org
  | "place" => some .place
  | "other" => some .other
  | _ => none

/-- `entries[phrase] = entry`: a known phrase keeps its place. -/
def setEntry (entries : List (String × GazEntry)) (phrase : String) (entry : GazEntry) :
    List (String × GazEntry) :=
  if entries.any fun known => known.1 = phrase then
    entries.map fun known => if known.1 = phrase then (phrase, entry) else known
  else entries ++ [(phrase, entry)]

/-- The loop over the rows. A row it cannot read ends it, and the rows before stay. -/
def loadRows (py : Python) (entries : List (String × GazEntry)) :
    List (Option GazRow) → List (String × GazEntry)
  | [] => entries
  | none :: _ => entries
  | some row :: rest =>
    match EntityType.parse (row.type.getD "other") with
    | none => entries
    | some type =>
      loadRows py (setEntry entries (py.lower row.phrase) {
        canonical := row.canonical.getD row.phrase, type, lat := row.lat, lon := row.lon }) rest

/-- `load_gazetteer`; without a file there are no rows. -/
def loadGazetteer (py : Python) (rows : List (Option GazRow)) : Gazetteer where
  entries := loadRows py Gazetteer.seed.entries rows

end NewsAggregator
