import NewsAggregator.Ingest.Bluesky
import NewsAggregator.Ingest.Gdacs
import NewsAggregator.Ingest.Gdelt
import NewsAggregator.Ingest.Mastodon
import NewsAggregator.Ingest.Noaa
import NewsAggregator.Ingest.Press
import NewsAggregator.Ingest.Usgs
import NewsAggregator.Ingest.Wikipedia

/-! The way of a record through its ingester up to the item, over all feeds, and the
records it returns on. -/

namespace NewsAggregator.Ingest

open Foundation

/-- The feeds, with what is configured for each. -/
inductive Feed
  | bluesky (langs : List PyStr)
  | mastodon (langs : List PyStr) (skipBots : Bool) (instanceName : String)
  | wikipedia (domains : List PyStr) (skipMinor : Bool)
  | gdelt
  | gdacs
  | noaa
  | usgs
  | press (feed : Press.GovFeed)

section Path

variable (rt : Runtime) (fresh : Fresh) (record : PyValue)

/-- The poll runner asks for the key first. -/
def polled (key : Except PyError PyStr) (normalized : Except PyError (Option Emitted)) :
    Except PyError (Option Emitted) := do
  let _ ← key
  normalized

/-- An event that is not kept is dropped. -/
def filtered (kept : Except PyError Bool) (normalized : Except PyError (Option Emitted)) :
    Except PyError (Option Emitted) := do
  let keep ← kept
  if keep then normalized else return none

def Feed.normalize : Feed → Except PyError (Option Emitted)
  | .bluesky _ => Bluesky.normalize rt fresh record
  | .mastodon _ _ instanceName => Mastodon.normalize rt instanceName fresh record
  | .wikipedia _ _ => Wikipedia.normalize rt fresh record
  | .gdelt => Gdelt.normalize rt fresh record
  | .gdacs => Gdacs.normalize rt fresh record
  | .noaa => Noaa.normalize rt fresh record
  | .usgs => Usgs.normalize rt fresh record
  | .press feed => Press.rssToItem rt feed fresh record

def Feed.path (feed : Feed) : Except PyError (Option Emitted) :=
  let normalized := feed.normalize rt fresh record
  match feed with
  | .bluesky langs => filtered (Bluesky.shouldKeep rt langs record) normalized
  | .mastodon langs skipBots _ => filtered (Mastodon.shouldKeep rt langs skipBots record) normalized
  | .wikipedia domains skipMinor =>
    filtered (Wikipedia.shouldKeep domains skipMinor record) normalized
  | .gdelt => polled (Gdelt.dedupKey rt record) normalized
  | .gdacs => polled (Gdacs.dedupKey rt record) normalized
  | .noaa => polled (Noaa.dedupKey rt record) normalized
  | .usgs => polled (Usgs.dedupKey rt record) normalized
  | .press _ => polled (Press.dedupKey rt record) normalized

/-- The records a feed's ingester takes without raising. -/
def Feed.Tame : Feed → Prop
  | .bluesky langs => Bluesky.Tame rt record langs
  | .mastodon langs skipBots _ => Mastodon.Tame rt record langs skipBots
  | .wikipedia domains skipMinor => Wikipedia.Tame rt record domains skipMinor
  | .gdelt => Gdelt.Tame rt record
  | .gdacs => Gdacs.Tame rt record
  | .noaa => Noaa.Tame rt record
  | .usgs => Usgs.Tame rt record
  | .press feed => Press.Tame rt feed record fresh.now

variable {rt fresh record}

theorem returns_polled {key : Except PyError PyStr} {normalized : Except PyError (Option Emitted)} :
    Returns (polled key normalized) ↔ Returns key ∧ Returns normalized :=
  ends_bind.trans ends_const

theorem returns_filtered {kept : Except PyError Bool}
    {normalized : Except PyError (Option Emitted)} : Returns (filtered kept normalized) ↔
      Ends kept fun keep => keep → Returns normalized := by
  simp only [filtered, Returns, ends_bind, ends_ite, ends_pure, if_true_right]

theorem returns_path {feed : Feed} :
    Returns (feed.path rt fresh record) ↔ feed.Tame rt fresh record := by
  cases feed with
  | bluesky langs => exact returns_filtered.trans (Bluesky.returns_iff rt record)
  | mastodon langs skipBots instanceName =>
    exact returns_filtered.trans (Mastodon.returns_iff rt record)
  | wikipedia domains skipMinor => exact returns_filtered.trans (Wikipedia.returns_iff rt record)
  | gdelt => exact returns_polled.trans (Gdelt.returns_iff rt record)
  | gdacs => exact returns_polled.trans (Gdacs.returns_iff rt record)
  | noaa => exact returns_polled.trans (Noaa.returns_iff rt record)
  | usgs => exact returns_polled.trans (Usgs.returns_iff rt record)
  | press feed => exact returns_polled.trans (Press.returns_iff rt feed record)

/-- A record is dropped or gives an item that satisfies its caps, without an exception,
exactly when it is tame. -/
theorem path_total_iff (rt : Runtime) (fresh : Fresh) (feed : Feed) (record : PyValue) :
    (Ends (feed.path rt fresh record) fun out => ∀ emitted ∈ out, emitted.item.Valid) ↔
      feed.Tame rt fresh record := by
  rw [← returns_path]
  exact ends_congr fun out => iff_of_true (fun emitted _ => emitted.valid) trivial

end Path

/-- The epoch. -/
def epoch : Fresh := ⟨1, ⟨0, 0⟩, ⟨0, 0⟩⟩

def cisa : Press.GovFeed where
  source := "cisa"
  sourceCap := by decide
  ageCap := by simp

/-- A release whose guid is longer than a reference may be. -/
def longRelease : PyValue :=
  .dict [(PyStr.of "title", .str (PyStr.of "Advisory")),
    (PyStr.of "guid", .str (List.replicate 257 (.scalar 'g')))]

theorem longRelease_raises :
    ¬ Ends ((Feed.press cisa).path .plain epoch longRelease) fun out =>
      ∀ emitted ∈ out, emitted.item.Valid := by
  rw [ends_congr fun out => iff_of_true (fun emitted _ => emitted.valid) trivial]
  intro returns
  have tame := (returns_path.mp returns).2 (by decide +kernel)
  have kept : ¬ cisa.Expired epoch.now (Press.eventTime .plain longRelease) := by
    rintro ⟨_, none, _⟩
    cases none
  exact absurd (tame.2 kept).2 (by decide +kernel)

end NewsAggregator.Ingest
