import NewsAggregator.Ingest.Size
import NewsAggregator.Ingest.Total

/-! Which items of a feed the ingest stream takes: with at most one link and no place
every one, elsewhere those whose strings leave room. -/

namespace NewsAggregator.Ingest

open Foundation

section Accounts

variable (enc : WireEncoding) (rt : Runtime) (fresh : Fresh)

/-- The links of a record as they are cut. -/
def Feed.links (record : PyValue) : Feed → List PyStr
  | .bluesky _ => Bluesky.links (Bluesky.recordOf record)
  | .mastodon _ _ _ =>
    linkIf ((record.get "url").chars.startsWith "http") (record.get "url").chars
  | .wikipedia _ _ =>
    let uri := ((record.get "meta").get "uri").orElse (record.get "title_url")
    linkIf (uri.chars.startsWith "http") uri.chars
  | .gdelt => [(record.get "url").chars.take 2048]
  | .gdacs =>
    let report := ((record.get "properties").get "url").get "report"
    linkIf (report.chars.startsWith "http") report.chars
  | .noaa => linkIf ((record.get "id").chars.startsWith "http") (record.get "id").chars
  | .usgs =>
    let url := (record.get "properties").get "url"
    linkIf (url.chars ≠ []) url.chars
  | .press _ => linkIf ((record.get "link").chars.startsWith "http") (record.get "link").chars

/-- The bytes of a post: the frame, the text, the links, the language and four keys. -/
def Bluesky.bytes (evt : PyValue) : ℕ :=
  let record := Bluesky.recordOf evt
  frameBytes enc fresh .social (Bluesky.parseDt rt (record.get "createdAt")) + 13 +
    jsonBytes (Bluesky.langOf rt record) + jsonBytes ((record.get "text").chars.take maxTextLen) +
    linkBytes (Bluesky.links record) + jsonBytes (digestOf rt (evt.get "did").chars 32) +
    refBytes (Bluesky.parentKey rt ((Bluesky.parentOf evt).get "uri").chars) +
    jsonBytes (Bluesky.uriKeyOf rt (Bluesky.atUri rt evt)) +
    jsonBytes ((toStr rt ((evt.get "commit").getOr "cid" (.str []))).take 256)

/-- The bytes of an event: the frame, the text, the point, the places with the point
each, the link and the key twice. -/
def Gdacs.bytes (feature : PyValue) : ℕ :=
  let props := feature.get "properties"
  let geo := Gdacs.geoOf rt feature
  frameBytes enc fresh .authoritative (Gdacs.parseDt rt (props.get "fromdate")) + 18 +
    jsonBytes ((Gdacs.claimText rt props).take maxTextLen) + geoBytes enc geo +
    placeBytes enc geo (Gdacs.countries rt props) + linkBytes (Feed.gdacs.links feature) +
    2 * jsonBytes (Gdacs.key rt props)

/-- The bytes of an alert, whose places have no point. -/
def Noaa.bytes (feature : PyValue) : ℕ :=
  let props := feature.get "properties"
  let geo := Noaa.geoOf rt feature
  let tsEvent := ((Noaa.parseDt rt (props.get "onset")).or
    (Noaa.parseDt rt (props.get "effective"))).or (Noaa.parseDt rt (props.get "sent"))
  frameBytes enc fresh .authoritative tsEvent + 17 +
    jsonBytes ((Noaa.claimText rt props).take maxTextLen) + geoBytes enc geo +
    placeBytes enc none (Noaa.areas rt props) + linkBytes (Feed.noaa.links feature) +
    2 * jsonBytes (Noaa.urn rt feature)

/-- The bytes of an earthquake, with its one place. -/
def Usgs.bytes (feature : PyValue) : ℕ :=
  let props := feature.get "properties"
  let geo := Usgs.geoOf rt feature
  let place := props.get "place"
  frameBytes enc fresh .authoritative (recovered (Usgs.msToDt rt (props.get "time")) none) + 17 +
    jsonBytes ((Usgs.claimText rt props).take 8192) + geoBytes enc geo +
    placeBytes enc geo (if place.truthy then [toStr rt place] else []) +
    linkBytes (Feed.usgs.links feature) +
    2 * jsonBytes ((toStr rt (feature.getOr "id" (.str []))).take 256)

/-- The strings of a record leave room under the cap. -/
def Feed.Fits (record : PyValue) : Feed → Prop
  | .bluesky _ => Bluesky.bytes enc rt fresh record ≤ maxMsgBytes
  | .gdacs => Gdacs.bytes enc rt fresh record ≤ maxMsgBytes
  | .noaa => Noaa.bytes enc rt fresh record ≤ maxMsgBytes
  | .usgs => Usgs.bytes enc rt fresh record ≤ maxMsgBytes
  | .mastodon _ _ _ | .wikipedia _ _ | .gdelt | .press _ => True

end Accounts

section Sizes

variable {enc : WireEncoding} {rt : Runtime} {fresh : Fresh} {emitted : Emitted}

theorem published_gives {args : ItemArgs} (gives : args.Gives fresh emitted) {subject : String} :
    emitted.published enc subject ↔ (∀ link ∈ args.urls, link.Encodes) ∧
      ((args.item fresh).json enc.toEncoding).utf8ByteSize ≤ maxMsgBytes := by
  rw [published_iff, gives.1, gives.2]

theorem Bluesky.size_args (evt : PyValue) :
    (((Bluesky.args rt evt).item fresh).json enc.toEncoding).utf8ByteSize =
      Bluesky.bytes enc rt fresh evt := by
  have name : jsonBytes Bluesky.source = 9 := by decide
  rw [size_item, Bluesky.bytes]
  simp only [Bluesky.itemArgs, name, geoBytes_none]
  have noPlaces : entityBytes enc [] = 0 := rfl
  omega

theorem Gdacs.size_args (feature : PyValue) :
    (((Gdacs.args rt feature).item fresh).json enc.toEncoding).utf8ByteSize =
      Gdacs.bytes enc rt fresh feature := by
  have name : jsonBytes Gdacs.source = 7 := by decide
  have short : jsonBytes (PyStr.of "und") = 5 ∧ jsonBytes [] = 2 ∧ refBytes none = 4 := by decide
  rw [size_item, Gdacs.bytes]
  simp only [Gdacs.itemArgs, name, short, entityBytes_places, Feed.links]
  omega

theorem Noaa.size_args (feature : PyValue) :
    (((Noaa.args rt feature).item fresh).json enc.toEncoding).utf8ByteSize =
      Noaa.bytes enc rt fresh feature := by
  have name : jsonBytes Noaa.source = 6 := by decide
  have short : jsonBytes (PyStr.of "und") = 5 ∧ jsonBytes [] = 2 ∧ refBytes none = 4 := by decide
  rw [size_item, Noaa.bytes]
  simp only [Noaa.itemArgs, name, short, entityBytes_places, Feed.links]
  omega

theorem Usgs.size_args (feature : PyValue) :
    (((Usgs.args rt feature).item fresh).json enc.toEncoding).utf8ByteSize =
      Usgs.bytes enc rt fresh feature := by
  have name : jsonBytes Usgs.source = 6 := by decide
  have short : jsonBytes (PyStr.of "und") = 5 ∧ jsonBytes [] = 2 ∧ refBytes none = 4 := by decide
  have places (place : PyValue) (geo : Option Geo) :
      (if place.truthy then [placeOf geo (toStr rt place)] else []) =
        (if place.truthy then [toStr rt place] else []).map (placeOf geo) := by
    split <;> rfl
  rw [size_item, Usgs.bytes]
  simp only [Usgs.itemArgs, name, short, places, entityBytes_places, Feed.links]
  omega

theorem Mastodon.fits (status : PyValue) (instanceName : String) :
    (((Mastodon.args rt status instanceName).item fresh).json enc.toEncoding).utf8ByteSize ≤
      maxMsgBytes := by
  refine fits_of_lengths enc fresh rfl rfl rfl (List.length_take_le _ _) linkBytes_linkIf_le ?_
  have source : Mastodon.source.length = 8 := by decide
  have lang := length_langOf_le rt status
  have author :=
    (hashRefOf_capped rt (PyStr.of instanceName) ((status.get "account").get "id")).2
  have hash := length_hash_le rt status instanceName
  have raw := List.length_take_le 256 (toStr rt (status.getOr "id" (.str [])))
  simp only [itemArgs] at *
  omega

theorem Wikipedia.fits (evt : PyValue) :
    (((Wikipedia.args rt evt).item fresh).json enc.toEncoding).utf8ByteSize ≤ maxMsgBytes := by
  refine fits_of_lengths enc fresh rfl rfl rfl (List.length_take_le _ _) linkBytes_linkIf_le ?_
  have source : Wikipedia.source.length = 9 := by decide
  have lang := length_lang_le (evt.get "server_name")
  have author :=
    (hashRefOf_capped rt ((evt.get "meta").get "domain").chars (evt.get "user")).2
  have key : (Wikipedia.key rt evt).length ≤ 256 := List.length_take_le _ _
  have raw := List.length_take_le 256 (toStr rt ((evt.get "meta").getOr "id" (.str [])))
  simp only [itemArgs]
  omega

theorem Gdelt.fits (article : PyValue) :
    (((Gdelt.args rt article).item fresh).json enc.toEncoding).utf8ByteSize ≤ maxMsgBytes := by
  have link : linkBytes (Gdelt.args rt article).urls ≤ 12290 := by
    have always : linkBytes (linkIf True (article.get "url").chars) ≤ 12290 := linkBytes_linkIf_le
    simpa [linkIf, itemArgs] using always
  refine fits_of_lengths enc fresh rfl rfl rfl (List.length_take_le _ _) link ?_
  have source : Gdelt.source.length = 5 := by decide
  have lang := length_lang_le rt article
  have hash := length_hash_le rt article
  have domain := List.length_take_le 256 (toStr rt (article.getOr "domain" (.str [])))
  simp only [itemArgs] at *
  omega

theorem Press.fits (feed : Press.GovFeed) {item : PyValue}
    (short : (stripStr rt (Press.reference rt item)).length ≤ maxRefLen) :
    (((Press.args rt feed item).item fresh).json enc.toEncoding).utf8ByteSize ≤ maxMsgBytes := by
  refine fits_of_lengths enc fresh rfl rfl rfl (List.length_take_le _ _) linkBytes_linkIf_le ?_
  have source := feed.sourceCap
  have lang : "und".length = 3 := by decide
  have author : ([] : PyStr).length = 0 := rfl
  unfold maxRefLen at short
  simp only [itemArgs, PyStr.length_of] at *
  omega

end Sizes

/-- An emitted item is published exactly when its links encode and its strings leave
room. -/
theorem emitted_published_iff (enc : WireEncoding) (rt : Runtime) (fresh : Fresh) (feed : Feed)
    (record : PyValue) (subject : String) (emitted : Emitted)
    (normalized : feed.normalize rt fresh record = .ok (some emitted)) :
    emitted.published enc subject ↔
      (∀ link ∈ feed.links record, link.Encodes) ∧ feed.Fits enc rt fresh record := by
  cases feed with
  | bluesky langs =>
    rw [published_gives (Bluesky.gives_args rt record normalized), Bluesky.size_args]
    rfl
  | mastodon langs skipBots instanceName =>
    rw [published_gives (Mastodon.gives_args rt record normalized)]
    exact and_congr_right fun _ => iff_of_true (Mastodon.fits record instanceName) trivial
  | wikipedia domains skipMinor =>
    rw [published_gives (Wikipedia.gives_args rt record normalized)]
    exact and_congr_right fun _ => iff_of_true (Wikipedia.fits record) trivial
  | gdelt =>
    rw [published_gives (Gdelt.gives_args rt record normalized)]
    exact and_congr_right fun _ => iff_of_true (Gdelt.fits record) trivial
  | gdacs =>
    rw [published_gives (Gdacs.gives_args rt record normalized), Gdacs.size_args]
    rfl
  | noaa =>
    rw [published_gives (Noaa.gives_args rt record normalized), Noaa.size_args]
    rfl
  | usgs =>
    rw [published_gives (Usgs.gives_args rt record normalized), Usgs.size_args]
    rfl
  | press feed =>
    obtain ⟨gives, short⟩ := Press.gives_args rt feed record normalized
    rw [published_gives gives]
    exact and_congr_right fun _ => iff_of_true (Press.fits feed short) trivial

def plainWire : WireEncoding where
  toEncoding := plainEncoding
  uuid_size _ := by
    have size : Json.quotedSize "00000000-0000-4000-8000-000000000000" ≤ 38 := by decide
    exact size
  dateTime_size _ := by
    have size : Json.quotedSize "2026-07-06T03:00:00Z" ≤ 34 := by decide
    exact size

/-- A feature with an id and a title. -/
def quake : PyValue :=
  .dict [(PyStr.of "id", .str (PyStr.of "us7000")),
    (PyStr.of "properties", .dict [(PyStr.of "title", .str (PyStr.of "M 5.1 - Kyiv"))])]

theorem quake_published : ∃ emitted, Feed.usgs.normalize .plain epoch quake = .ok (some emitted) ∧
    emitted.published plainWire "ingest.usgs" :=
  ⟨_, rfl, (emitted_published_iff plainWire .plain epoch .usgs quake "ingest.usgs" _ rfl).mpr
    ⟨by decide, (by decide +kernel : Usgs.bytes plainWire .plain epoch quake ≤ maxMsgBytes)⟩⟩

section LongLinks

/-- A facet with one link. -/
def linkFacet (uri : PyStr) : PyValue :=
  .dict [(PyStr.of "features", .list [.dict [(PyStr.of "uri", .str uri)]])]

theorem collectFeatures_link {urls : List PyStr} {uri : PyStr} (link : uri.startsWith "http")
    (short : uri.length ≤ 2048) (new : uri ∉ urls) :
    Bluesky.collectFeatures urls ((linkFacet uri).get "features").elements = urls ++ [uri] := by
  have features : ((linkFacet uri).get "features").elements =
      [.dict [(PyStr.of "uri", .str uri)]] := rfl
  have found : (PyValue.dict [(PyStr.of "uri", .str uri)]).get "uri" = .str uri := rfl
  have added : Bluesky.addFeature urls (.dict [(PyStr.of "uri", .str uri)]) = urls ++ [uri] := by
    simp [Bluesky.addFeature, found, PyValue.isStr, PyValue.chars, link, new,
      List.take_of_length_le short]
  rw [features]
  simp [Bluesky.collectFeatures, added]

/-- New links are all taken, up to the cap. -/
theorem facetLinks_of_nodup {uris : List PyStr} {urls : List PyStr}
    (links : ∀ uri ∈ uris, uri.startsWith "http" ∧ uri.length ≤ 2048)
    (distinct : (urls ++ uris).Nodup) (few : urls.length + uris.length ≤ maxUrls) :
    Bluesky.facetLinks urls (uris.map linkFacet) = urls ++ uris := by
  induction uris generalizing urls with
  | nil => simp [Bluesky.facetLinks]
  | cons uri rest ih =>
    obtain ⟨link, short⟩ := links uri List.mem_cons_self
    have new : uri ∉ urls := fun old =>
      (List.nodup_append.mp distinct).2.2 uri old uri List.mem_cons_self rfl
    have found := collectFeatures_link link short new
    have dict : (linkFacet uri).isDict = true := rfl
    rw [List.map_cons, Bluesky.facetLinks, if_pos dict]
    dsimp only
    rw [found]
    rw [List.append_cons urls uri rest] at distinct ⊢
    rw [List.length_cons] at few
    split
    · rename_i full
      rw [List.length_append, List.length_singleton] at full
      have last : rest = [] := List.length_eq_zero_iff.mp (by omega)
      simp [last]
    · refine ih (fun next member => links next (List.mem_cons_of_mem _ member)) distinct ?_
      rw [List.length_append, List.length_singleton]
      omega

theorem facetsIterate_links (uris : List PyStr) (urls : List PyStr) :
    Bluesky.FacetsIterate urls (uris.map linkFacet) := by
  induction uris generalizing urls with
  | nil => trivial
  | cons uri rest ih =>
    have iterable : ((linkFacet uri).get "features").OrIterable := fun _ => rfl
    exact ⟨iterable, fun _ => ih _⟩

def uriOf (i : Fin 32) : PyStr := PyStr.of "http" ++ List.replicate (2013 + i) (.scalar 'u')

/-- A post of 300 characters with 32 links, all within their caps. -/
def linkedPost : PyValue :=
  .dict [(PyStr.of "did", .str (PyStr.of "did:plc:a")),
    (PyStr.of "commit", .dict [(PyStr.of "rkey", .str (PyStr.of "k")),
      (PyStr.of "record", .dict [
        (PyStr.of "text", .str (List.replicate 300 (.scalar 'x'))),
        (PyStr.of "facets", .list ((List.ofFn uriOf).map linkFacet))])])]

theorem length_uriOf (i : Fin 32) : (uriOf i).length = 2017 + i := by
  have head : "http".length = 4 := by decide
  rw [uriOf, List.length_append, PyStr.length_of, List.length_replicate, head]
  omega

theorem linkedPost_links : Bluesky.links (Bluesky.recordOf linkedPost) = List.ofFn uriOf := by
  have facets : ((Bluesky.recordOf linkedPost).get "facets").elements =
      (List.ofFn uriOf).map linkFacet := rfl
  rw [Bluesky.links, facets]
  refine facetLinks_of_nodup (fun uri member => ?_) ?_ ?_
  · obtain ⟨i, rfl⟩ := (List.mem_ofFn' uriOf uri).mp member
    refine ⟨List.prefix_append _ _, ?_⟩
    rw [length_uriOf]
    omega
  · refine List.nodup_ofFn.mpr fun i j same => ?_
    have lengths := congrArg List.length same
    rw [length_uriOf, length_uriOf] at lengths
    omega
  · rw [List.length_ofFn]
    decide

theorem jsonBytes_uriOf (i : Fin 32) : jsonBytes (uriOf i) = 2019 + i := by
  have head : jsonBytes (PyStr.of "http") = 6 := by decide
  have tail : jsonBytes (List.replicate (2013 + i) (.scalar 'u')) = 2 + (2013 + i) :=
    jsonBytes_replicate _ (by decide)
  have joined := jsonBytes_append (PyStr.of "http") (List.replicate (2013 + i) (.scalar 'u'))
  rw [head, tail] at joined
  rw [uriOf]
  omega

theorem linkedPost_bytes : maxMsgBytes < Bluesky.bytes plainWire .plain epoch linkedPost := by
  have total : linkBytes (List.ofFn uriOf) = 65135 := by
    rw [linkBytes, List.map_ofFn, List.length_ofFn]
    simp only [Function.comp_def, jsonBytes_uriOf]
    decide
  have text : jsonBytes (((Bluesky.recordOf linkedPost).get "text").chars.take maxTextLen) =
      302 := by
    have chars : ((Bluesky.recordOf linkedPost).get "text").chars =
        List.replicate 300 (.scalar 'x') := rfl
    have whole : min maxTextLen 300 = 300 := rfl
    rw [chars, List.take_replicate, whole]
    exact jsonBytes_replicate 300 (by decide)
  have frame : frameBytes plainWire epoch .social
      (Bluesky.parseDt .plain ((Bluesky.recordOf linkedPost).get "createdAt")) = 234 := by
    decide +kernel
  rw [Bluesky.bytes, linkedPost_links, total, text, frame, maxMsgBytes]
  omega

theorem linkedPost_rejected :
    ∃ emitted, (Feed.bluesky []).normalize .plain epoch linkedPost = .ok (some emitted) ∧
      ¬ emitted.published plainWire "ingest.bluesky" := by
  have clean : Bluesky.Clean .plain linkedPost := by
    refine ⟨by decide, by decide, by decide, fun _ => rfl, facetsIterate_links _ _, by decide,
      by decide, by decide, by decide +kernel, by decide⟩
  have emits : Ends (Bluesky.normalize .plain epoch linkedPost) fun out =>
      ∃ emitted, out = some emitted ∧ ¬ emitted.published plainWire "ingest.bluesky" := by
    rw [Bluesky.ends_normalize]
    have usable : Bluesky.Usable .plain linkedPost := by decide +kernel
    rw [if_pos usable]
    refine ⟨rfl, fun _ => rfl, fun _ => rfl, clean, _, rfl, fun published => ?_⟩
    rw [published_gives ((Bluesky.sized_args .plain linkedPost).gives epoch),
      Bluesky.size_args] at published
    exact absurd published.2 (not_le.mpr linkedPost_bytes)
  obtain ⟨_, normalized, emitted, rfl, rejected⟩ := emits
  exact ⟨emitted, normalized, rejected⟩

end LongLinks

end NewsAggregator.Ingest
