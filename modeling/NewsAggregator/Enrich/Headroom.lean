import NewsAggregator.Enrich.Consumer
import NewsAggregator.Schema.Encoding
import NewsAggregator.Schema.Merge

/-! What enrichment adds to an item in bytes, against the headroom the enriched
stream has over the ingest cap. -/

namespace NewsAggregator

open Foundation

section Growth

variable (enc : Encoding ℚ) (item : Item) (entities : List Entity)

/-- The bytes of the geo an item without one takes from the appended entities, over
the `null` it replaces. -/
def Item.geoGrowth : ℕ :=
  if item.geo.isSome then 0
  else ((item.appended entities).findSome? Entity.geo).elim 0 fun geo =>
    (geo.json enc).utf8ByteSize - 4

/-- The bytes a merge adds to an item: the appended entities, their commas and the geo. -/
def Item.growth : ℕ :=
  ((item.appended entities).map fun entity => (entity.json enc).utf8ByteSize).sum +
    (item.entities.length + (item.appended entities).length - 1 - (item.entities.length - 1)) +
    item.geoGrowth enc entities

theorem size_merged : ((mergeEntities item entities).json enc).utf8ByteSize =
    (item.json enc).utf8ByteSize + item.growth enc entities := by
  have geo : (Json.nullable (Geo.json enc)
      (item.geo.or ((item.appended entities).findSome? Entity.geo))).utf8ByteSize =
      (Json.nullable (Geo.json enc) item.geo).utf8ByteSize + item.geoGrowth enc entities := by
    unfold Item.geoGrowth
    cases item.geo with
    | some own => simp [Json.nullable]
    | none =>
      have null : "null".utf8ByteSize = 4 := by decide
      cases (item.appended entities).findSome? Entity.geo with
      | none => simp [Json.nullable]
      | some found =>
        have large := found.size_json enc
        simp only [Option.none_or, Json.nullable, Option.elim_some, Option.elim_none,
          Option.isSome_none, Bool.false_eq_true, if_false, null]
        omega
  rw [mergeEntities_eq, Item.size_json, Item.size_json, Json.size_array, Json.size_array, geo,
    Item.growth]
  simp only [List.map_append, List.map_map, List.sum_append, List.length_append, List.length_map,
    Function.comp_def]
  change Item.fixedSize enc item + _ + _ = _
  omega

end Growth

end NewsAggregator

namespace NewsAggregator.Enrich

open Foundation Dedup

variable {K σ : Type} [Field K] [LinearOrder K]

/-- The worker with the JSON of its messages, under the cap of the enriched stream. -/
def Worker.encoding (worker : Worker K σ) (enc : Encoding ℚ) : Worker K σ :=
  { worker with
    pub := { allowedPrefix := "enriched.", maxMsgBytes := 81920 }
    jsonSize := fun enriched => (enriched.json enc).utf8ByteSize }

/-- An attempt whose models answer and whose broker does. -/
def Attempt.answering (attempt : Attempt K) (found : List Entity) (vec : Embedding) : Attempt K :=
  { attempt with ner := fun _ => some found, encode := fun _ => some vec, sent := true }

/-- The item, what its merges add and the vector's numbers fit under the cap, next
to the names and marks of the wrapper. -/
def FitsHeadroom (enc : Encoding ℚ) (item : Item) (entities : List Entity) (vec : Embedding)
    (exploration : Bool) : Prop :=
  422 + (item.json enc).utf8ByteSize + item.growth enc entities + vectorSize enc vec +
    (Json.bool exploration).utf8ByteSize ≤ 81920

section Publish

variable (worker : Worker K σ) (enc : Encoding ℚ) (attempt : Attempt K) (item : Item)
  (hits found : List Entity) (vec : Embedding) (exploration : Bool)

omit [Field K] [LinearOrder K] in
/-- With models and a broker that answer, only the size decides. -/
theorem enrich_isSome_iff :
    ((worker.encoding enc).enrich (attempt.answering found vec) item exploration).isSome ↔
      (EnrichedItem.json enc ⟨mergeEntities item found, vec, exploration⟩).utf8ByteSize ≤
        81920 := by
  have allowed (source : String) : "enriched.".toList <+: ("enriched." ++ source).toList := by
    rw [String.toList_append]
    exact List.prefix_append _ _
  simp only [Worker.enrich, Worker.encoding, Attempt.answering, Bus.ScopedPublisher.publish,
    Option.bind_eq_bind, Option.bind_some, allowed, true_and, and_true, decide_eq_true_eq]
  split <;> simp [*]

theorem size_enriched :
    (EnrichedItem.json enc ⟨mergeEntities (mergeEntities item hits) found, vec,
      exploration⟩).utf8ByteSize =
      422 + (item.json enc).utf8ByteSize + item.growth enc (hits ++ found) + vectorSize enc vec +
        (Json.bool exploration).utf8ByteSize := by
  rw [EnrichedItem.size_json, mergeEntities_append]
  dsimp only
  rw [size_merged]
  omega

omit [Field K] [LinearOrder K] in
/-- An item is published after enrichment exactly when it fits with what is added to it. -/
theorem enriched_publishable_iff :
    ((worker.encoding enc).enrich (attempt.answering found vec) (mergeEntities item hits)
      exploration).isSome ↔ FitsHeadroom enc item (hits ++ found) vec exploration := by
  rw [enrich_isSome_iff, size_enriched, FitsHeadroom]

end Publish

def longLink : String := String.ofList (List.replicate 64000 'u')

/-- A post with a long link. -/
def linkPost : Item where
  id := 1
  source := "mastodon"
  sourceClass := .social
  tsObserved := ⟨0, 0⟩
  text := String.ofList (List.replicate 256 'x')
  urls := [longLink]

/-- The first half of the text and more. -/
def slice (i : Fin 128) : Entity where
  text := String.ofList (List.replicate (129 + i) 'x')
  textCap := by
    rw [String.length_ofList, List.length_replicate]
    omega

theorem slice_size (i : Fin 128) : 166 ≤ ((slice i).json plainEncoding).utf8ByteSize := by
  have text : Json.quotedSize (slice i).text = 2 + (129 + i) :=
    Json.quotedSize_replicate _ (by decide)
  have other : Json.quotedSize EntityType.other.value = 7 := by decide
  have null : (Json.nullable (Geo.json plainEncoding) none).utf8ByteSize = 4 := by decide
  rw [Entity.size_json, text]
  change 166 ≤ _ + Json.quotedSize EntityType.other.value +
    (Json.nullable (Geo.json plainEncoding) none).utf8ByteSize
  rw [other, null]
  omega

theorem linkPost_size : (linkPost.json plainEncoding).utf8ByteSize = 64523 := by
  have text : Json.quotedSize linkPost.text = 258 := Json.quotedSize_replicate 256 (by decide)
  have link : Json.quotedSize longLink = 64002 := Json.quotedSize_replicate 64000 (by decide)
  have urls : (Json.array (linkPost.urls.map Json.quote)).utf8ByteSize = 64004 := by
    change (Json.array [Json.quote longLink]).utf8ByteSize = 64004
    rw [Json.size_array, List.map_singleton, List.sum_singleton, Json.size_quote, link]
    rfl
  have head : Json.quotedSize (plainEncoding.uuid linkPost.id) = 38 ∧
      Json.quotedSize linkPost.source = 10 ∧ Json.quotedSize linkPost.sourceClass.value = 8 ∧
      Json.quotedSize (plainEncoding.dateTime linkPost.tsObserved) = 22 ∧
      (Json.nullable (fun time => Json.quote (plainEncoding.dateTime time))
        linkPost.tsEvent).utf8ByteSize = 4 ∧ Json.quotedSize linkPost.lang = 5 := by decide
  have tail : Json.quotedSize linkPost.authorRef = 2 ∧
      (Json.nullable Json.quote linkPost.parentRef).utf8ByteSize = 4 ∧
      Json.quotedSize linkPost.contentHash = 2 ∧ Json.quotedSize linkPost.rawRef = 2 ∧
      (Json.array (linkPost.entities.map (Entity.json plainEncoding))).utf8ByteSize = 2 ∧
      (Json.nullable (Geo.json plainEncoding) linkPost.geo).utf8ByteSize = 4 := by decide
  obtain ⟨id, source, sourceClass, tsObserved, tsEvent, lang⟩ := head
  obtain ⟨authorRef, parentRef, contentHash, rawRef, entities, geo⟩ := tail
  rw [Item.size_json, Item.fixedSize, text, urls, id, source, sourceClass, tsObserved, tsEvent,
    lang, authorRef, parentRef, contentHash, rawRef, entities, geo]

theorem slices_appended : linkPost.appended (List.ofFn slice) = List.ofFn slice := by
  refine newEntities_of_nodup ?_ (fun _ _ => List.not_mem_nil) (by rw [List.length_ofFn]; decide)
  rw [List.map_ofFn]
  refine List.nodup_ofFn.mpr fun i j same => ?_
  have lengths := congrArg (fun key => String.length key.1) same
  simp only [Function.comp_apply, Entity.key, slice, String.length_ofList,
    List.length_replicate] at lengths
  omega

theorem slices_size : 21248 ≤ linkPost.growth plainEncoding (List.ofFn slice) := by
  have total := List.card_nsmul_le_sum
    ((List.ofFn slice).map fun entity => (entity.json plainEncoding).utf8ByteSize) 166 (by
      intro size member
      obtain ⟨entity, sliced, rfl⟩ := List.mem_map.mp member
      obtain ⟨i, rfl⟩ := (List.mem_ofFn' slice entity).mp sliced
      exact slice_size i)
  rw [List.length_map, List.length_ofFn, smul_eq_mul] at total
  rw [Item.growth, slices_appended]
  omega

/-- A post that fits the ingest cap names 128 slices of its text, and is not published. -/
theorem linkPost_lost :
    (linkPost.json plainEncoding).utf8ByteSize ≤ 65536 ∧
      (∀ i, (slice i).text.toList <:+: linkPost.text.toList) ∧
      ∀ vec, (((replicaOf (inMemory 50000 (by decide)) []).encoding plainEncoding).enrich
        (plainAttempt.answering (List.ofFn slice) vec) linkPost false) = none := by
  refine ⟨by rw [linkPost_size]; decide, fun i => ?_, fun vec => ?_⟩
  · change (String.ofList (List.replicate (129 + i) 'x')).toList <:+:
      (String.ofList (List.replicate 256 'x')).toList
    rw [String.toList_ofList, String.toList_ofList]
    exact (List.prefix_replicate_iff.mpr ⟨by rw [List.length_replicate]; omega, by simp⟩).isInfix
  · rw [← Option.not_isSome_iff_eq_none, enrich_isSome_iff, EnrichedItem.size_json]
    dsimp only
    rw [size_merged, linkPost_size]
    have large := slices_size
    omega

end NewsAggregator.Enrich
