import Mathlib.Algebra.BigOperators.Fin
import NewsAggregator.Foundation.Json
import NewsAggregator.Schema.Claim
import NewsAggregator.Schema.Tally

/-! The JSON of the messages as `model_dump_json` writes it, and what it takes in
bytes. -/

namespace NewsAggregator

open Foundation

/-- The texts of numbers, timestamps and ids. -/
structure Encoding (K : Type) where
  float : K → String
  dateTime : DateTime → String
  uuid : Uuid → String

/-- Short texts for numbers, timestamps and ids. -/
def plainEncoding : Encoding ℚ where
  float _ := "0.5"
  dateTime _ := "2026-07-06T03:00:00Z"
  uuid _ := "00000000-0000-4000-8000-000000000000"

def EntityType.value : EntityType → String
  | .person => "person"
  | .org => "org"
  | .place => "place"
  | .other => "other"

section Messages

variable (enc : Encoding ℚ)

def Geo.json (geo : Geo) : String :=
  Json.object [("lat", enc.float geo.lat), ("lon", enc.float geo.lon),
    ("geohash", Json.nullable Json.quote geo.geohash)]

def Entity.json (entity : Entity) : String :=
  Json.object [("text", Json.quote entity.text), ("type", Json.quote entity.type.value),
    ("geo", Json.nullable (Geo.json enc) entity.geo)]

def Item.json (item : Item) : String :=
  Json.object [
    ("id", Json.quote (enc.uuid item.id)),
    ("source", Json.quote item.source),
    ("source_class", Json.quote item.sourceClass.value),
    ("ts_observed", Json.quote (enc.dateTime item.tsObserved)),
    ("ts_event", Json.nullable (fun time => Json.quote (enc.dateTime time)) item.tsEvent),
    ("lang", Json.quote item.lang),
    ("text", Json.quote item.text),
    ("entities", Json.array (item.entities.map (Entity.json enc))),
    ("geo", Json.nullable (Geo.json enc) item.geo),
    ("urls", Json.array (item.urls.map Json.quote)),
    ("author_ref", Json.quote item.authorRef),
    ("parent_ref", Json.nullable Json.quote item.parentRef),
    ("content_hash", Json.quote item.contentHash),
    ("raw_ref", Json.quote item.rawRef)]

def EnrichedItem.json (enriched : EnrichedItem) : String :=
  Json.object [("item", Item.json enc enriched.item),
    ("embedding", Json.array (List.ofFn fun i => enc.float (enriched.embedding i))),
    ("exploration", Json.bool enriched.exploration)]

def ClaimRequest.json (req : ClaimRequest) : String :=
  Json.object [("story_id", Json.quote (enc.uuid req.storyId)),
    ("item_id", Json.quote (enc.uuid req.itemId)), ("text", Json.quote req.text)]

def ClaimResult.json (result : ClaimResult) : String :=
  Json.object [("story_id", Json.quote (enc.uuid result.storyId)),
    ("item_id", Json.quote (enc.uuid result.itemId)), ("claim", Json.quote result.claim)]

end Messages

/-- A time of the flush is in UTC. -/
def TallyFlush.json {K : Type} [Semiring K] [LinearOrder K] (enc : Encoding K)
    (flush : TallyFlush K) : String :=
  Json.object [
    ("bucket_ts", Json.quote (enc.dateTime ⟨flush.bucketTs, 0⟩)),
    ("counts", Json.object (flush.counts.map fun entry => (entry.1, toString entry.2))),
    ("sampling_active", Json.bool flush.samplingActive),
    ("theta", enc.float flush.theta),
    ("replica", Json.quote flush.replica),
    ("flushed_at", Json.quote (enc.dateTime ⟨flush.flushedAt, 0⟩))]

section Sizes

variable (enc : Encoding ℚ)

theorem Geo.size_json (geo : Geo) : (geo.json enc).utf8ByteSize =
    26 + (enc.float geo.lat).utf8ByteSize + (enc.float geo.lon).utf8ByteSize +
      (Json.nullable Json.quote geo.geohash).utf8ByteSize := by
  have names : Json.quotedSize "lat" = 5 ∧ Json.quotedSize "lon" = 5 ∧
      Json.quotedSize "geohash" = 9 := by decide
  obtain ⟨lat, lon, geohash⟩ := names
  rw [Geo.json, Json.size_object]
  simp only [List.map_cons, List.map_nil, List.sum_cons, List.sum_nil, List.length_cons,
    List.length_nil, lat, lon, geohash]
  omega

theorem Entity.size_json (entity : Entity) : (entity.json enc).utf8ByteSize =
    24 + Json.quotedSize entity.text + Json.quotedSize entity.type.value +
      (Json.nullable (Geo.json enc) entity.geo).utf8ByteSize := by
  have names : Json.quotedSize "text" = 6 ∧ Json.quotedSize "type" = 6 ∧
      Json.quotedSize "geo" = 5 := by decide
  obtain ⟨text, type, geo⟩ := names
  rw [Entity.json, Json.size_object]
  simp only [List.map_cons, List.map_nil, List.sum_cons, List.sum_nil, List.length_cons,
    List.length_nil, Json.size_quote, text, type, geo]
  omega

/-- The bytes of the members of an item that enrichment leaves alone, with all names. -/
def Item.fixedSize (item : Item) : ℕ :=
  158 + Json.quotedSize (enc.uuid item.id) + Json.quotedSize item.source +
    Json.quotedSize item.sourceClass.value + Json.quotedSize (enc.dateTime item.tsObserved) +
    (Json.nullable (fun time => Json.quote (enc.dateTime time)) item.tsEvent).utf8ByteSize +
    Json.quotedSize item.lang + Json.quotedSize item.text +
    (Json.array (item.urls.map Json.quote)).utf8ByteSize + Json.quotedSize item.authorRef +
    (Json.nullable Json.quote item.parentRef).utf8ByteSize + Json.quotedSize item.contentHash +
    Json.quotedSize item.rawRef

theorem Item.size_json (item : Item) : (item.json enc).utf8ByteSize =
    item.fixedSize enc + (Json.array (item.entities.map (Entity.json enc))).utf8ByteSize +
      (Json.nullable (Geo.json enc) item.geo).utf8ByteSize := by
  have first : Json.quotedSize "id" = 4 ∧ Json.quotedSize "source" = 8 ∧
      Json.quotedSize "source_class" = 14 ∧ Json.quotedSize "ts_observed" = 13 ∧
      Json.quotedSize "ts_event" = 10 ∧ Json.quotedSize "lang" = 6 ∧
      Json.quotedSize "text" = 6 := by decide
  have second : Json.quotedSize "entities" = 10 ∧ Json.quotedSize "geo" = 5 ∧
      Json.quotedSize "urls" = 6 ∧ Json.quotedSize "author_ref" = 12 ∧
      Json.quotedSize "parent_ref" = 12 ∧ Json.quotedSize "content_hash" = 14 ∧
      Json.quotedSize "raw_ref" = 9 := by decide
  obtain ⟨id, source, sourceClass, tsObserved, tsEvent, lang, text⟩ := first
  obtain ⟨entities, geo, urls, authorRef, parentRef, contentHash, rawRef⟩ := second
  rw [Item.json, Json.size_object, Item.fixedSize]
  simp only [List.map_cons, List.map_nil, List.sum_cons, List.sum_nil, List.length_cons,
    List.length_nil, Json.size_quote, id, source, sourceClass, tsObserved, tsEvent, lang, text,
    entities, geo, urls, authorRef, parentRef, contentHash, rawRef]
  omega

/-- The bytes of the numbers of a vector. -/
def vectorSize (vec : Embedding) : ℕ := ∑ i, (enc.float (vec i)).utf8ByteSize

theorem EnrichedItem.size_json (enriched : EnrichedItem) : (enriched.json enc).utf8ByteSize =
    422 + (enriched.item.json enc).utf8ByteSize + vectorSize enc enriched.embedding +
      (Json.bool enriched.exploration).utf8ByteSize := by
  have names : Json.quotedSize "item" = 6 ∧ Json.quotedSize "embedding" = 11 ∧
      Json.quotedSize "exploration" = 13 := by decide
  obtain ⟨item, embedding, exploration⟩ := names
  have numbers : ((List.ofFn fun i => enc.float (enriched.embedding i)).map
      String.utf8ByteSize).sum = vectorSize enc enriched.embedding := by
    rw [List.map_ofFn, List.sum_ofFn]
    rfl
  rw [EnrichedItem.json, Json.size_object]
  simp only [List.map_cons, List.map_nil, List.sum_cons, List.sum_nil, List.length_cons,
    List.length_nil, item, embedding, exploration, Json.size_array, numbers, List.length_ofFn]
  unfold embedDim
  omega

theorem ClaimRequest.size_json (req : ClaimRequest) : (req.json enc).utf8ByteSize =
    32 + Json.quotedSize (enc.uuid req.storyId) + Json.quotedSize (enc.uuid req.itemId) +
      Json.quotedSize req.text := by
  have names : Json.quotedSize "story_id" = 10 ∧ Json.quotedSize "item_id" = 9 ∧
      Json.quotedSize "text" = 6 := by decide
  obtain ⟨storyId, itemId, text⟩ := names
  rw [ClaimRequest.json, Json.size_object]
  simp only [List.map_cons, List.map_nil, List.sum_cons, List.sum_nil, List.length_cons,
    List.length_nil, Json.size_quote, storyId, itemId, text]
  omega

theorem ClaimResult.size_json (result : ClaimResult) : (result.json enc).utf8ByteSize =
    33 + Json.quotedSize (enc.uuid result.storyId) + Json.quotedSize (enc.uuid result.itemId) +
      Json.quotedSize result.claim := by
  have names : Json.quotedSize "story_id" = 10 ∧ Json.quotedSize "item_id" = 9 ∧
      Json.quotedSize "claim" = 7 := by decide
  obtain ⟨storyId, itemId, claim⟩ := names
  rw [ClaimResult.json, Json.size_object]
  simp only [List.map_cons, List.map_nil, List.sum_cons, List.sum_nil, List.length_cons,
    List.length_nil, Json.size_quote, storyId, itemId, claim]
  omega

theorem TallyFlush.size_json {K : Type} [Semiring K] [LinearOrder K] (enc : Encoding K)
    (flush : TallyFlush K) : (flush.json enc).utf8ByteSize =
    79 + Json.quotedSize (enc.dateTime ⟨flush.bucketTs, 0⟩) +
      (flush.counts.map fun entry =>
        Json.quotedSize entry.1 + 1 + (toString entry.2).utf8ByteSize).sum +
      (flush.counts.length - 1) + (Json.bool flush.samplingActive).utf8ByteSize +
      (enc.float flush.theta).utf8ByteSize + Json.quotedSize flush.replica +
      Json.quotedSize (enc.dateTime ⟨flush.flushedAt, 0⟩) := by
  have names : Json.quotedSize "bucket_ts" = 11 ∧ Json.quotedSize "counts" = 8 ∧
      Json.quotedSize "sampling_active" = 17 ∧ Json.quotedSize "theta" = 7 ∧
      Json.quotedSize "replica" = 9 ∧ Json.quotedSize "flushed_at" = 12 := by decide
  obtain ⟨bucketTs, counts, samplingActive, theta, replica, flushedAt⟩ := names
  rw [TallyFlush.json, Json.size_object]
  simp only [List.map_cons, List.map_nil, List.sum_cons, List.sum_nil, List.length_cons,
    List.length_nil, List.length_map, List.map_map, Function.comp_def, Json.size_quote,
    Json.size_object, bucketTs, counts, samplingActive, theta, replica, flushedAt]
  omega

end Sizes

end NewsAggregator
