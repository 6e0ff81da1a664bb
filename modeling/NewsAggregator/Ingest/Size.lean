import NewsAggregator.Bus.Client
import NewsAggregator.Ingest.Emission
import NewsAggregator.Schema.Encoding

/-! The bytes of an emitted item against the cap of the ingest streams. -/

namespace NewsAggregator.Ingest

open Foundation

/-- Ids have 36 characters and times at most 32, as their formats have. -/
structure WireEncoding extends Encoding ℚ where
  uuid_size : ∀ id, Json.quotedSize (uuid id) ≤ 38
  dateTime_size : ∀ time, Json.quotedSize (dateTime time) ≤ 34

/-- `DEFAULT_MAX_MSG_BYTES` -/
def maxMsgBytes : ℕ := 64 * 1024

section Wire

variable (enc : WireEncoding)

/-- `model_dump_json`, which raises on a link that does not encode. -/
def Emitted.json (emitted : Emitted) : Option String :=
  if ∀ link ∈ emitted.links, link.Encodes then some (emitted.item.json enc.toEncoding) else none

/-- `publish` of an item to the one subject of its ingester, by a broker that answers. -/
def Emitted.published (subject : String) (emitted : Emitted) : Bool :=
  (emitted.json enc).any fun text =>
    Bus.ScopedPublisher.publish { allowedPrefix := subject, maxMsgBytes := maxMsgBytes } subject
      text.utf8ByteSize true

theorem published_iff {subject : String} {emitted : Emitted} :
    emitted.published enc subject ↔ (∀ link ∈ emitted.links, link.Encodes) ∧
      (emitted.item.json enc.toEncoding).utf8ByteSize ≤ maxMsgBytes := by
  rw [Emitted.published, Emitted.json]
  split
  · rename_i encodes
    simp only [Option.any_some, Bus.ScopedPublisher.publish, List.prefix_refl, true_and, and_true,
      decide_eq_true_eq]
    exact ⟨fun size => ⟨encodes, size⟩, And.right⟩
  · simp [*]

end Wire

section Bytes

variable (enc : WireEncoding)

/-- The bytes of a string with its quotes and escapes. -/
def jsonBytes (s : PyStr) : ℕ := Json.quotedSize s.text

def stampBytes (time : Option DateTime) : ℕ :=
  (Json.nullable (fun time => Json.quote (enc.dateTime time)) time).utf8ByteSize

def geoBytes (geo : Option Geo) : ℕ := (Json.nullable (Geo.json enc.toEncoding) geo).utf8ByteSize

def refBytes (ref : Option PyStr) : ℕ := ref.elim 4 jsonBytes

/-- The bytes of the links with their commas. -/
def linkBytes (links : List PyStr) : ℕ := (links.map jsonBytes).sum + (links.length - 1)

/-- The bytes of the entities with their commas. -/
def entityBytes (entities : List Entity) : ℕ :=
  (entities.map fun entity => (entity.json enc.toEncoding).utf8ByteSize).sum +
    (entities.length - 1)

/-- The bytes of places at a point, with their commas. -/
def placeBytes (geo : Option Geo) (parts : List PyStr) : ℕ :=
  (parts.map fun part => 31 + jsonBytes (part.take 256) + geoBytes enc geo).sum +
    (parts.length - 1)

/-- The bytes that are there whatever the strings are. -/
def frameBytes (fresh : Fresh) (sourceClass : SourceClass) (tsEvent : Option DateTime) : ℕ :=
  162 + Json.quotedSize (enc.uuid fresh.id) + Json.quotedSize sourceClass.value +
    Json.quotedSize (enc.dateTime fresh.observed) + stampBytes enc tsEvent

@[simp] theorem geoBytes_none : geoBytes enc none = 4 := by
  have null : "null".utf8ByteSize = 4 := by decide
  exact null

@[simp] theorem stampBytes_none : stampBytes enc none = 4 := by
  have null : "null".utf8ByteSize = 4 := by decide
  exact null

theorem entityBytes_places {geo : Option Geo} {parts : List PyStr} :
    entityBytes enc (parts.map (placeOf geo)) = placeBytes enc geo parts := by
  have place : Json.quotedSize EntityType.place.value = 7 := by decide
  have each (part : PyStr) : ((placeOf geo part).json enc.toEncoding).utf8ByteSize =
      31 + jsonBytes (part.take 256) + geoBytes enc geo := by
    rw [Entity.size_json]
    change 24 + jsonBytes (part.take 256) + Json.quotedSize EntityType.place.value +
      geoBytes enc geo = _
    omega
  simp only [entityBytes, placeBytes, List.map_map, List.length_map, Function.comp_def, each]

theorem size_item (fresh : Fresh) (args : ItemArgs) :
    ((args.item fresh).json enc.toEncoding).utf8ByteSize =
      frameBytes enc fresh args.sourceClass args.tsEvent + jsonBytes args.source +
        jsonBytes args.lang + jsonBytes args.text + entityBytes enc args.entities +
        geoBytes enc args.geo + linkBytes args.urls + jsonBytes args.authorRef +
        refBytes args.parentRef + jsonBytes args.contentHash + jsonBytes args.rawRef := by
  have parent : (Json.nullable Json.quote (args.parentRef.map PyStr.text)).utf8ByteSize =
      refBytes args.parentRef := by
    cases args.parentRef with
    | none => decide
    | some ref => simp [Json.nullable, refBytes, jsonBytes]
  have links : (Json.array ((args.urls.map PyStr.text).map Json.quote)).utf8ByteSize =
      2 + linkBytes args.urls := by
    simp only [Json.size_array, linkBytes, List.map_map, List.length_map, Function.comp_def,
      Json.size_quote]
    change 2 + (args.urls.map jsonBytes).sum + _ = _
    omega
  have entities : (Json.array (args.entities.map (Entity.json enc.toEncoding))).utf8ByteSize =
      2 + entityBytes enc args.entities := by
    simp only [Json.size_array, entityBytes, List.map_map, List.length_map, Function.comp_def]
    omega
  rw [Item.size_json, Item.fixedSize]
  change 158 + Json.quotedSize (enc.uuid fresh.id) + jsonBytes args.source +
    Json.quotedSize args.sourceClass.value + Json.quotedSize (enc.dateTime fresh.observed) +
    stampBytes enc args.tsEvent + jsonBytes args.lang + jsonBytes args.text +
    (Json.array ((args.urls.map PyStr.text).map Json.quote)).utf8ByteSize +
    jsonBytes args.authorRef +
    (Json.nullable Json.quote (args.parentRef.map PyStr.text)).utf8ByteSize +
    jsonBytes args.contentHash + jsonBytes args.rawRef +
    (Json.array (args.entities.map (Entity.json enc.toEncoding))).utf8ByteSize +
    geoBytes enc args.geo = _
  rw [parent, links, entities, frameBytes]
  omega

theorem jsonBytes_append (s t : PyStr) : jsonBytes (s ++ t) + 2 = jsonBytes s + jsonBytes t := by
  simp only [jsonBytes, Json.quotedSize, PyStr.text, List.filterMap_append, String.toList_ofList,
    List.map_append, List.sum_append]
  omega

theorem jsonBytes_replicate (n : ℕ) {c : Char} (plain : Json.escapedSize c = 1) :
    jsonBytes (List.replicate n (.scalar c)) = 2 + n := by
  have char : (CodePoint.scalar c).char? = some c := rfl
  rw [jsonBytes, PyStr.text, List.filterMap_replicate_of_some char]
  exact Json.quotedSize_replicate n plain

theorem jsonBytes_le (s : PyStr) : jsonBytes s ≤ 2 + 6 * s.length :=
  (Json.quotedSize_le _).trans (by have := s.length_text_le; omega)

theorem frameBytes_le (fresh : Fresh) (sourceClass : SourceClass) (tsEvent : Option DateTime) :
    frameBytes enc fresh sourceClass tsEvent ≤ 283 := by
  have id := enc.uuid_size fresh.id
  have observed := enc.dateTime_size fresh.observed
  have named : Json.quotedSize sourceClass.value ≤ 15 := by
    cases sourceClass <;> decide
  have event : stampBytes enc tsEvent ≤ 34 := by
    cases tsEvent with
    | none => simp
    | some time => simpa [stampBytes, Json.nullable] using enc.dateTime_size time
  rw [frameBytes]
  omega

/-- An item with one link and no place fits whatever its strings are. -/
theorem fits_of_lengths (fresh : Fresh) {args : ItemArgs} (places : args.entities = [])
    (point : args.geo = none) (parent : args.parentRef = none) (text : args.text.length ≤ maxTextLen)
    (link : linkBytes args.urls ≤ 12290)
    (short : args.source.length + args.lang.length + args.authorRef.length +
      args.contentHash.length + args.rawRef.length ≤ 600) :
    ((args.item fresh).json enc.toEncoding).utf8ByteSize ≤ maxMsgBytes := by
  have frame := frameBytes_le enc fresh args.sourceClass args.tsEvent
  have noPlaces : entityBytes enc [] = 0 := rfl
  rw [size_item, places, point, parent, noPlaces, geoBytes_none]
  have source := jsonBytes_le args.source
  have lang := jsonBytes_le args.lang
  have claim := jsonBytes_le args.text
  have author := jsonBytes_le args.authorRef
  have hash := jsonBytes_le args.contentHash
  have raw := jsonBytes_le args.rawRef
  have noParent : refBytes none = 4 := rfl
  unfold maxTextLen at text
  rw [maxMsgBytes]
  omega

theorem linkBytes_linkIf_le {wanted : Prop} [Decidable wanted] {link : PyStr} :
    linkBytes (linkIf wanted link) ≤ 12290 := by
  rw [linkIf, linkBytes]
  split
  · have bytes := jsonBytes_le (link.take 2048)
    have cut := List.length_take_le 2048 link
    simp only [List.map_singleton, List.sum_singleton, List.length_singleton]
    omega
  · exact Nat.zero_le _

end Bytes

end NewsAggregator.Ingest
