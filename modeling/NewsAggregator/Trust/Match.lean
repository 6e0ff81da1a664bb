import NewsAggregator.Cluster.Db

/-! The trust worker: a social claim matched to an official record by entity,
time and place promotes its Story. -/

namespace NewsAggregator.Trust

open Cluster Foundation

def geoKmMax : ℚ := 500

/-- An official item inside the time window. -/
structure MatchCandidate where
  itemId : Uuid
  entityTexts : Finset String
  lat : Option ℚ := none
  lon : Option ℚ := none

def haversineKm (py : Python) (lat1 lon1 lat2 lon2 : ℚ) : ℚ :=
  let p1 := py.radians lat1
  let p2 := py.radians lat2
  let dp := py.radians (lat2 - lat1)
  let dl := py.radians (lon2 - lon1)
  let a := py.sin (dp / 2) ^ 2 + py.cos p1 * py.cos p2 * py.sin (dl / 2) ^ 2
  2 * 6371 * py.asin (py.sqrt a)

/-- Both sides carry coordinates, too far apart. -/
def tooFar (py : Python) (claimLat claimLon : Option ℚ) (c : MatchCandidate) : Bool :=
  match claimLat, claimLon, c.lat, c.lon with
  | some lat1, some lon1, some lat2, some lon2 => geoKmMax < haversineKm py lat1 lon1 lat2 lon2
  | _, _, _, _ => false

/-- The first candidate aligned with the claim. -/
def findPrimaryMatch (py : Python) (claimEntities : Finset String) (claimLat claimLon : Option ℚ)
    (candidates : List MatchCandidate) : Option Uuid :=
  let folded := (claimEntities.filter (· ≠ "")).image py.casefold
  if folded = ∅ then none
  else (candidates.find? fun c =>
    (folded ∩ c.entityTexts).Nonempty ∧ tooFar py claimLat claimLon c = false).map
      MatchCandidate.itemId

structure MatcherConfig where
  window : Int := 86400000000
  candidateLimit : Nat := 50

def rowEntityTexts (py : Python) (row : ItemRow) : Finset String :=
  (row.item.entities.map fun e => py.casefold e.text).toFinset.erase ""

def matchCandidate (py : Python) (row : ItemRow) : MatchCandidate where
  itemId := row.item.id
  entityTexts := rowEntityTexts py row
  lat := row.item.geo.map Geo.lat
  lon := row.item.geo.map Geo.lon

/-- `PrimaryMatcher.handle`. -/
def matchClaim (py : Python) (cfg : MatcherConfig) (claim : ClaimResult) : Program Stmt Unit := do
  if py.strip claim.claim = "" then return ()
  else
    let found ← .perform (.claimItem claim.itemId)
    match found with
    | none => return ()
    | some item =>
      if item.storyId ≠ some claim.storyId then return ()
      else if item.item.sourceClass ≠ .social then return ()
      else
        let entities := rowEntityTexts py item
        if entities = ∅ then return ()
        else
          let rows ← .perform (.primaryCandidates item.item.tsObserved.instant cfg.window entities
            cfg.candidateLimit)
          let candidates := rows.map (matchCandidate py)
          match findPrimaryMatch py entities (item.item.geo.map Geo.lat)
            (item.item.geo.map Geo.lon) candidates with
          | none => return ()
          | some _ => .perform (.promotePrimaryBacked claim.storyId)

end NewsAggregator.Trust
