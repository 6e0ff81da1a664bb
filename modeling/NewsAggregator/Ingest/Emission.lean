import NewsAggregator.Ingest.Value

/-! Construction of an `Item` from raw strings. A capped string must encode; the
links are strings of any kind, so an item can hold one that does not. -/

namespace NewsAggregator.Ingest

open Foundation

/-- The arguments of `Item(...)`. -/
structure ItemArgs where
  source : PyStr
  sourceClass : SourceClass
  tsEvent : Option DateTime := none
  lang : PyStr := PyStr.of "und"
  text : PyStr
  entities : List Entity := []
  geo : Option Geo := none
  urls : List PyStr := []
  authorRef : PyStr := []
  parentRef : Option PyStr := none
  contentHash : PyStr
  rawRef : PyStr

namespace ItemArgs

variable (args : ItemArgs) (fresh : Fresh)

/-- The caps hold, in code points. -/
def Sized : Prop :=
  args.source.length ≤ 64 ∧ args.lang.length ≤ 8 ∧ args.text.length ≤ maxTextLen ∧
    args.entities.length ≤ maxEntities ∧ args.urls.length ≤ maxUrls ∧
    args.authorRef.length ≤ maxRefLen ∧ (∀ ref ∈ args.parentRef, ref.length ≤ maxRefLen) ∧
    args.contentHash.length ≤ maxRefLen ∧ args.rawRef.length ≤ maxRefLen

instance : DecidablePred Sized := fun _ => inferInstanceAs (Decidable (_ ∧ _))

/-- The strings with a cap encode. -/
def Encoded : Prop :=
  args.source.Encodes ∧ args.lang.Encodes ∧ args.text.Encodes ∧ args.authorRef.Encodes ∧
    (∀ ref ∈ args.parentRef, ref.Encodes) ∧ args.contentHash.Encodes ∧ args.rawRef.Encodes

instance : DecidablePred Encoded := fun _ => inferInstanceAs (Decidable (_ ∧ _))

def item : Item where
  id := fresh.id
  source := args.source.text
  sourceClass := args.sourceClass
  tsObserved := fresh.observed
  tsEvent := args.tsEvent
  lang := args.lang.text
  text := args.text.text
  entities := args.entities
  geo := args.geo
  urls := args.urls.map PyStr.text
  authorRef := args.authorRef.text
  parentRef := args.parentRef.map PyStr.text
  contentHash := args.contentHash.text
  rawRef := args.rawRef.text

variable {args}

theorem Sized.item (sized : args.Sized) : (args.item fresh).Valid := by
  obtain ⟨source, lang, text, entities, urls, authorRef, parentRef, contentHash, rawRef⟩ := sized
  have shorter {cap : ℕ} {s : PyStr} (le : s.length ≤ cap) : s.text.length ≤ cap :=
    s.length_text_le.trans le
  refine ⟨shorter source, shorter lang, shorter text, entities, ?_, shorter authorRef, ?_,
    shorter contentHash, shorter rawRef⟩
  · change (args.urls.map PyStr.text).length ≤ maxUrls
    rwa [List.length_map]
  · intro ref member
    obtain ⟨raw, present, rfl⟩ := Option.mem_map.mp member
    exact shorter (parentRef raw present)

end ItemArgs

/-- An item that passed its checks, with its links as they were read. -/
structure Emitted where
  item : Item
  links : List PyStr
  same : item.urls = links.map PyStr.text
  valid : item.Valid

namespace ItemArgs

variable {args : ItemArgs} {fresh : Fresh}

def Sized.emitted (sized : args.Sized) (fresh : Fresh) : Emitted :=
  ⟨args.item fresh, args.urls, rfl, sized.item fresh⟩

/-- `Item(...)`, which raises `ValidationError`. -/
def validate (args : ItemArgs) (fresh : Fresh) : Except PyError Emitted :=
  if sized : args.Sized then require args.Encoded .validationError (sized.emitted fresh)
  else .error .validationError

@[simp] theorem ends_validate {property : Emitted → Prop} :
    Ends (args.validate fresh) property ↔
      args.Encoded ∧ ∃ sized : args.Sized, property (sized.emitted fresh) := by
  unfold validate
  split <;> simp [*]

theorem ends_validate_of_sized (sized : args.Sized) {property : Emitted → Prop} :
    Ends (args.validate fresh) property ↔ args.Encoded ∧ property (sized.emitted fresh) := by
  rw [ends_validate, exists_prop_of_true sized]

end ItemArgs

/-- The item holds the arguments. -/
def ItemArgs.Gives (args : ItemArgs) (fresh : Fresh) (emitted : Emitted) : Prop :=
  emitted.item = args.item fresh ∧ emitted.links = args.urls

theorem ItemArgs.Sized.gives {args : ItemArgs} (sized : args.Sized) (fresh : Fresh) :
    args.Gives fresh (sized.emitted fresh) := ⟨rfl, rfl⟩

/-- At most one link, cut to `MAX_URL_LEN`. -/
def linkIf (wanted : Prop) [Decidable wanted] (link : PyStr) : List PyStr :=
  if wanted then [link.take 2048] else []

theorem length_linkIf_le {wanted : Prop} [Decidable wanted] {link : PyStr} :
    (linkIf wanted link).length ≤ maxUrls := by
  rw [linkIf]
  split
  · exact (by decide : 1 ≤ maxUrls)
  · exact Nat.zero_le _

@[simp] theorem length_und : "und".length ≤ 8 := by decide

/-- `Entity(text=part[:256], type=EntityType.PLACE, geo=geo)` -/
def placeOf (geo : Option Geo) (part : PyStr) : Entity where
  text := PyStr.text (part.take 256)
  type := .place
  geo := geo
  textCap := by
    refine (PyStr.length_text_le _).trans ?_
    exact (List.length_take_le 256 part)

def place (geo : Option Geo) (part : PyStr) : Except PyError Entity :=
  require (PyStr.Encodes (part.take 256)) .validationError (placeOf geo part)

theorem ends_places {geo : Option Geo} {parts : List PyStr} {property : List Entity → Prop} :
    Ends (parts.mapM (place geo)) property ↔
      (∀ part ∈ parts, PyStr.Encodes (part.take 256)) ∧ property (parts.map (placeOf geo)) :=
  ends_mapM_require

/-- The named parts of a list in one string, at most so many. -/
def namedParts (rt : Runtime) (s : PyStr) (separator : Char) (cap : ℕ) : List PyStr :=
  (((s.splitOn (.scalar separator)).take cap).map (stripStr rt)).filter (· ≠ [])

theorem length_namedParts_le (rt : Runtime) (s : PyStr) (separator : Char) (cap : ℕ) :
    (namedParts rt s separator cap).length ≤ cap := by
  refine (List.length_filter_le _ _).trans ?_
  rw [List.length_map]
  exact List.length_take_le cap _

/-- The point of `[lon, lat, ...]`, `None` where a number cannot be read. -/
def pointOf (rt : Runtime) (coords : PyValue) : Except PyError (Option Geo) :=
  match coords.items with
  | first :: second :: _ =>
    tryExcept PyError.typeOrValue
      (do
        let point ← floatPair rt first second
        return geoAt point.1 point.2)
      none
  | _ => return none

/-- No coordinate read is an integer beyond the doubles. -/
def Locates (rt : Runtime) (coords : PyValue) : Prop :=
  match coords.items with
  | first :: second :: _ => ¬ PairOverflows rt first second
  | _ => True

theorem ends_pointOf {rt : Runtime} {coords : PyValue} {property : Option Geo → Prop} :
    Ends (pointOf rt coords) property ↔
      Locates rt coords ∧ property (recovered (pointOf rt coords) none) := by
  have returns : Returns (pointOf rt coords) ↔ Locates rt coords := by
    rw [pointOf, Locates]
    split
    · simp [Returns, escapes_floatPair PyError.typeOrValue rfl rfl rfl]
    · simp [Returns]
  rw [ends_iff_recovered none, returns]

end NewsAggregator.Ingest
