import NewsAggregator.Ingest.Emission

/-! The press feeds of the agencies, all in RSS. -/

namespace NewsAggregator.Ingest.Press

open Foundation

/-- A configured feed; the oldest age kept leaves a date. -/
structure GovFeed where
  source : String
  sourceClass : SourceClass := .authoritative
  maxAgeDays : Option ℕ := none
  sourceCap : source.length ≤ 64
  ageCap : ∀ days ∈ maxAgeDays, days ≤ 700000

section Code

variable (rt : Runtime)

def parsePubdate (value : PyValue) : Except PyError (Option DateTime) :=
  if value.isStr = true ∧ value.chars ≠ [] then
    tryExcept PyError.typeOrValue
      (do
        let parsed ← rt.parsedateToDatetime value.chars
        return parsed.kept)
      none
  else return none

/-- `str(item.get("guid") or item.get("link") or "")` -/
def reference (item : PyValue) : PyStr :=
  toStr rt (((item.get "guid").orElse (item.get "link")).orElse (.str []))

def dedupKey (item : PyValue) : Except PyError PyStr := do
  let item ← asDict item
  return reference rt item

/-- The publication date is before the cutoff. -/
def GovFeed.Expired (feed : GovFeed) (now : DateTime) (tsEvent : Option DateTime) : Prop :=
  ∃ days ∈ feed.maxAgeDays, ∃ time ∈ tsEvent, time.instant < now.instant - days * 86400000000

instance (feed : GovFeed) (now : DateTime) : DecidablePred (feed.Expired now) := fun _ =>
  inferInstanceAs (Decidable (∃ days ∈ _, _))

def itemArgs (feed : GovFeed) (item : PyValue) (tsEvent : Option DateTime) : ItemArgs :=
  let link := item.get "link"
  let ref := stripStr rt (reference rt item)
  { source := PyStr.of feed.source
    sourceClass := feed.sourceClass
    tsEvent := tsEvent
    text := (stripStr rt (item.get "title").chars).take maxTextLen
    urls := linkIf (link.chars.startsWith "http") link.chars
    contentHash := ref
    rawRef := ref }

/-- The title is a string that is not blank, and there is a reference. -/
def Titled (item : PyValue) : Prop :=
  (item.get "title").isStr ∧ stripStr rt (item.get "title").chars ≠ [] ∧
    stripStr rt (reference rt item) ≠ []

instance : DecidablePred (Titled rt) := fun _ => inferInstanceAs (Decidable (_ ∧ _))

def rssToItem (feed : GovFeed) (fresh : Fresh) (item : PyValue) :
    Except PyError (Option Emitted) := do
  let item ← asDict item
  if Titled rt item then
    let tsEvent ← parsePubdate rt (item.get "pubdate")
    if feed.Expired fresh.now tsEvent then return none
    else
      let emitted ← (itemArgs rt feed item tsEvent).validate fresh
      return some emitted
  else return none

end Code

section Spec

variable (rt : Runtime) (feed : GovFeed) (item : PyValue)

/-- The date is read, or raises what is caught. -/
def Dated (value : PyValue) : Prop :=
  value.isStr → value.chars ≠ [] →
    ¬ Escapes PyError.typeOrValue (rt.parsedateToDatetime value.chars)

/-- The date of a record, `None` where it has none that counts. -/
abbrev eventTime : Option DateTime := recovered (parsePubdate rt (item.get "pubdate")) none

theorem ends_parsePubdate {value : PyValue} {property : Option DateTime → Prop} :
    Ends (parsePubdate rt value) property ↔
      Dated rt value ∧ property (recovered (parsePubdate rt value) none) := by
  have returns : Returns (parsePubdate rt value) ↔ Dated rt value := by
    rw [parsePubdate, Dated]
    split <;> rename_i dated
    · simp [Returns, dated]
    · simp only [Returns, ends_pure, true_iff]
      exact fun string nonempty => absurd ⟨string, nonempty⟩ dated
  rw [ends_iff_recovered none, returns]

/-- The strings of a record encode. -/
def Clean : Prop :=
  PyStr.Encodes ((stripStr rt (item.get "title").chars).take maxTextLen) ∧
    PyStr.Encodes (stripStr rt (reference rt item))

abbrev args : ItemArgs := itemArgs rt feed item (eventTime rt item)

theorem sized_args : (args rt feed item).Sized ↔
    (stripStr rt (reference rt item)).length ≤ maxRefLen := by
  have rest : (args rt feed item).source.length ≤ 64 ∧ (args rt feed item).lang.length ≤ 8 ∧
      (args rt feed item).text.length ≤ maxTextLen ∧
      (args rt feed item).urls.length ≤ maxUrls := by
    refine ⟨?_, ?_, List.length_take_le _ _, length_linkIf_le⟩
    · simpa [itemArgs] using feed.sourceCap
    · simp [itemArgs]
  simp only [ItemArgs.Sized, rest, true_and]
  simp [itemArgs]

theorem encoded_args : (args rt feed item).Encoded ↔
    PyStr.Encodes ((stripStr rt (item.get "title").chars).take maxTextLen) ∧
      PyStr.Encodes (stripStr rt (reference rt item)) := by
  simp [ItemArgs.Encoded, itemArgs]

theorem returns_dedupKey : Returns (dedupKey rt item) ↔ item.isDict := by
  simp [Returns, dedupKey]

theorem ends_rssToItem {fresh : Fresh} {property : Option Emitted → Prop} :
    Ends (rssToItem rt feed fresh item) property ↔ item.isDict ∧
      if Titled rt item then
        Dated rt (item.get "pubdate") ∧
          if feed.Expired fresh.now (eventTime rt item) then property none
          else Clean rt item ∧
            ∃ sized : (args rt feed item).Sized, property (some (sized.emitted fresh))
      else property none := by
  have encoded := encoded_args rt feed item
  simp only [rssToItem, ends_bind, ends_asDict, ends_ite, ends_pure, ends_parsePubdate,
    ItemArgs.ends_validate, Clean, ← encoded]

/-- The records both functions return on. -/
def Tame (now : DateTime) : Prop :=
  item.isDict ∧ (Titled rt item → Dated rt (item.get "pubdate") ∧
    (¬ feed.Expired now (eventTime rt item) →
      Clean rt item ∧ (stripStr rt (reference rt item)).length ≤ maxRefLen))

theorem returns_iff {fresh : Fresh} :
    (Returns (dedupKey rt item) ∧ Returns (rssToItem rt feed fresh item)) ↔
      Tame rt feed item fresh.now := by
  rw [returns_dedupKey, Returns, ends_rssToItem, Tame]
  simp only [exists_prop, and_true, if_true_right, if_true_left, sized_args]
  exact ⟨And.right, fun tame => ⟨tame.1, tame⟩⟩

theorem gives_args {fresh : Fresh} {emitted : Emitted}
    (normalized : rssToItem rt feed fresh item = .ok (some emitted)) :
    (args rt feed item).Gives fresh emitted ∧
      (stripStr rt (reference rt item)).length ≤ maxRefLen := by
  have ends := ends_eq_iff.mpr normalized
  rw [ends_rssToItem] at ends
  grind [ItemArgs.Sized.gives, sized_args]

end Spec

end NewsAggregator.Ingest.Press
