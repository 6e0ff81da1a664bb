import NewsAggregator.Python
import NewsAggregator.Schema.Item

/-! The firehose gazetteer matcher: leftmost, longest, non-overlapping hits of a
curated list of phrases. -/

namespace NewsAggregator

structure GazEntry where
  canonical : String
  type : EntityType
  lat : Option ℚ := none
  lon : Option ℚ := none

/-- `to_entity`; `none` where the schema rejects the entry. -/
def GazEntry.toEntity (entry : GazEntry) : Option Entity := do
  let geo ← match entry.lat, entry.lon with
    | some lat, some lon =>
      if range : (-90 ≤ lat ∧ lat ≤ 90) ∧ (-180 ≤ lon ∧ lon ≤ 180) then
        some (some { lat, lon, latRange := range.1, lonRange := range.2, geohashCap := by simp })
      else none
    | _, _ => some none
  if textCap : entry.canonical.length ≤ 256 then
    some { text := entry.canonical, type := entry.type, geo, textCap }
  else none

/-- Entries by their lower-case phrase. -/
structure Gazetteer where
  entries : List (String × GazEntry)

/-- `_WORD`. -/
def isToken (c : Char) : Bool := ('a' ≤ c ∧ c ≤ 'z') ∨ ('0' ≤ c ∧ c ≤ '9')

def words (py : Python) (phrase : String) : List String :=
  findRuns (fun c => !py.isSpace c) phrase.toList

/-- `_max_words`. -/
def Gazetteer.maxWords (py : Python) (gaz : Gazetteer) : ℕ :=
  ((gaz.entries.map fun entry => (words py entry.1).length).max?).getD 1

/-- The inner loop: the entry of the longest phrase that starts here. -/
def Gazetteer.longest (py : Python) (gaz : Gazetteer) (tokens : List String) :
    Option (GazEntry × ℕ) :=
  (List.range (min (gaz.maxWords py) tokens.length)).reverse.findSome? fun shorter =>
    (gaz.entries.lookup (" ".intercalate (tokens.take (shorter + 1)))).map (·, shorter + 1)

/-- The outer loop, at most one turn for each token. -/
def Gazetteer.scan (py : Python) (gaz : Gazetteer) : ℕ → List String → Option (List Entity)
  | 0, _ => some []
  | _, [] => some []
  | turns + 1, token :: rest =>
    match gaz.longest py (token :: rest) with
    | some (entry, step) => do
      let hit ← entry.toEntity
      let later ← gaz.scan py turns ((token :: rest).drop step)
      return hit :: later
    | none => gaz.scan py turns rest

/-- `match`: all hits in the text; `none` where an entry does not validate. -/
def Gazetteer.matchText (py : Python) (gaz : Gazetteer) (text : String) : Option (List Entity) :=
  let tokens := findRuns isToken (py.lower text).toList
  gaz.scan py tokens.length tokens

/-- `_SEED`. -/
def Gazetteer.seed : Gazetteer where
  entries := [
    ("tokyo", { canonical := "Tokyo", type := .place,
                lat := some (356762 / 10000), lon := some (1396503 / 10000) }),
    ("san francisco", { canonical := "San Francisco", type := .place,
                        lat := some (377749 / 10000), lon := some (-1224194 / 10000) }),
    ("new york", { canonical := "New York", type := .place,
                   lat := some (407128 / 10000), lon := some (-740060 / 10000) }),
    ("kyiv", { canonical := "Kyiv", type := .place,
               lat := some (504501 / 10000), lon := some (305234 / 10000) }),
    ("gaza", { canonical := "Gaza", type := .place,
               lat := some (315 / 10), lon := some (3447 / 100) }),
    ("united nations", { canonical := "United Nations", type := .org }),
    ("world health organization", { canonical := "World Health Organization", type := .org })]

end NewsAggregator
