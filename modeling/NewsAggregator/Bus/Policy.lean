import Mathlib.Data.Fintype.Defs
import NewsAggregator.Foundation.Interference
import NewsAggregator.Foundation.Subjects

/-! The permissions of `nats-accounts.conf`: which user may publish on and hear
which subject, and how far through the pipeline one user's credentials reach. -/

namespace NewsAggregator.Bus

open Foundation

/-- A subject, or a pattern of them, as the tokens between its dots. -/
abbrev Subject := List String

/-- The users of the account `PIPELINE`. -/
inductive User
  | usgs | noaa | state | dod | cisa | cdc | gdacs | wikipedia | bluesky | mastodon | gdelt
  | enrich | retrain | writer | cluster | claimx | trust
  deriving DecidableEq

/-- The streams, those of the two key-value buckets among them. -/
inductive Stream
  | ingest | enriched | tally | llmHeavy | claim | kvDedup | kvModels
  deriving DecidableEq

def User.all : List User :=
  [.usgs, .noaa, .state, .dod, .cisa, .cdc, .gdacs, .wikipedia, .bluesky, .mastodon, .gdelt,
    .enrich, .retrain, .writer, .cluster, .claimx, .trust]

instance : Fintype User where
  elems := ⟨↑User.all, by decide⟩
  complete user := by cases user <;> decide

namespace Stream

def all : List Stream := [ingest, enriched, tally, llmHeavy, claim, kvDedup, kvModels]

instance : Fintype Stream where
  elems := ⟨↑all, by decide⟩
  complete stream := by cases stream <;> decide

def name : Stream → String
  | ingest => "INGEST"
  | enriched => "ENRICHED"
  | tally => "TALLY"
  | llmHeavy => "LLM_HEAVY"
  | claim => "CLAIM"
  | kvDedup => "KV_dedup"
  | kvModels => "KV_models"

/-- The subjects whose messages the stream keeps. -/
def subjects : Stream → Subject
  | ingest => ["ingest", ">"]
  | enriched => ["enriched", ">"]
  | tally => ["tally", ">"]
  | llmHeavy => ["llm", ">"]
  | claim => ["claim", ">"]
  | kvDedup => ["$KV", "dedup", ">"]
  | kvModels => ["$KV", "models", ">"]

end Stream

section Requests

variable (stream : Stream)

def createUpdate : List Subject :=
  [["$JS", "API", "STREAM", "CREATE", stream.name], ["$JS", "API", "STREAM", "UPDATE", stream.name]]

def info : List Subject := [["$JS", "API", "STREAM", "INFO", stream.name]]

def consume : List Subject :=
  [["$JS", "API", "CONSUMER", "CREATE", stream.name],
    ["$JS", "API", "CONSUMER", "CREATE", stream.name, ">"],
    ["$JS", "API", "CONSUMER", "DURABLE", "CREATE", stream.name, ">"]]

def consumerInfo : List Subject := [["$JS", "API", "CONSUMER", "INFO", stream.name, ">"]]

def next : List Subject := [["$JS", "API", "CONSUMER", "MSG", "NEXT", stream.name, ">"]]

def ack : List Subject := [["$JS", "ACK", stream.name, ">"]]

def get : List Subject :=
  [["$JS", "API", "DIRECT", "GET", stream.name], ["$JS", "API", "DIRECT", "GET", stream.name, ">"],
    ["$JS", "API", "STREAM", "MSG", "GET", stream.name]]

/-- The API requests of a pull consumer. -/
def consumerApi : List Subject :=
  consume stream ++ consumerInfo stream ++ next stream ++ ack stream

end Requests

/-- The publish list of a user. -/
def publishes : User → List Subject
  | .usgs => [["ingest", ">"]] ++ createUpdate .ingest ++ info .ingest
  | .noaa => [["ingest", "noaa"]] ++ createUpdate .ingest ++ info .ingest
  | .state => [["ingest", "state"]] ++ createUpdate .ingest ++ info .ingest
  | .dod => [["ingest", "dod"]] ++ createUpdate .ingest ++ info .ingest
  | .cisa => [["ingest", "cisa"]] ++ createUpdate .ingest ++ info .ingest
  | .cdc => [["ingest", "cdc"]] ++ createUpdate .ingest ++ info .ingest
  | .gdacs => [["ingest", "gdacs"]] ++ createUpdate .ingest ++ info .ingest
  | .wikipedia => [["ingest", "wikipedia"]] ++ createUpdate .ingest ++ info .ingest
  | .bluesky => [["ingest", "bluesky"]] ++ createUpdate .ingest ++ info .ingest
  | .mastodon => [["ingest", "mastodon"]] ++ createUpdate .ingest ++ info .ingest
  | .gdelt => [["ingest", "gdelt"]] ++ createUpdate .ingest ++ info .ingest
  | .enrich =>
    [["enriched", ">"], ["tally", ">"]] ++ createUpdate .ingest ++ info .ingest ++
      createUpdate .enriched ++ info .enriched ++ createUpdate .tally ++ info .tally ++
      consumerApi .ingest ++ [["$KV", "dedup", ">"]] ++ createUpdate .kvDedup ++ info .kvDedup ++
      get .kvDedup ++ info .kvModels ++ get .kvModels
  | .retrain =>
    [["$KV", "models", ">"]] ++ createUpdate .kvModels ++ info .kvModels ++ get .kvModels
  | .writer =>
    createUpdate .enriched ++ info .enriched ++ consumerApi .enriched ++
      createUpdate .tally ++ info .tally ++ consumerApi .tally
  | .cluster =>
    [["llm", ">"]] ++ createUpdate .enriched ++ info .enriched ++
      createUpdate .llmHeavy ++ info .llmHeavy ++ consumerApi .enriched
  | .claimx =>
    [["claim", ">"]] ++ createUpdate .llmHeavy ++ info .llmHeavy ++
      createUpdate .claim ++ info .claim ++ consumerApi .llmHeavy
  | .trust => createUpdate .claim ++ info .claim ++ consumerApi .claim

/-- The subscribe list, the same for all. -/
def subscribes (_ : User) : List Subject := [["_INBOX", ">"]]

/-- Some pattern of the list accepts the subject. -/
def permits (list : List Subject) (subject : Subject) : Bool :=
  (list.map Pattern.ofTokens).any (·.accepts subject)

/-- Requests that name the stream and may change what it holds: its messages, its
configuration or its consumers. -/
def changing (stream : Stream) : List Subject :=
  [stream.subjects] ++ createUpdate stream ++ consume stream ++ next stream ++ ack stream

/-- Requests that name the stream and are answered with its messages. -/
def fetching (stream : Stream) : List Subject := consume stream ++ next stream ++ get stream

inductive Asks
  | publish (subject : Subject)
  | subscribe (subject : Subject)

/-- What a user can change and read of a broker where a request touches no stream but the
one its subject names. It is a frame to be assumed: a stream that sources, mirrors or
republishes another one, or a consumer that delivers into one, breaks it. -/
def policy : Access User Stream Asks where
  changes user asked stream :=
    match asked with
    | .publish subject => permits (publishes user) subject && permits (changing stream) subject
    | .subscribe _ => false
  reads user asked :=
    match asked with
    | .publish subject =>
      if permits (publishes user) subject then
        Stream.all.filter fun stream => permits (fetching stream) subject
      else []
    | .subscribe subject =>
      if permits (subscribes user) subject then
        Stream.all.filter fun stream => permits [stream.subjects] subject
      else []

section Matrix

theorem permits_both {first second : List Subject} :
    (∃ subject, permits first subject = true ∧ permits second subject = true) ↔
      ((first.map Pattern.ofTokens).any fun left =>
        (second.map Pattern.ofTokens).any fun right => (left.meet right).isSome) = true :=
  Pattern.any_meet_isSome.symm

/-- The streams a user can change. -/
def changed : User → List Stream
  | .enrich => [.ingest, .enriched, .tally, .kvDedup]
  | .retrain => [.kvModels]
  | .writer => [.enriched, .tally]
  | .cluster => [.enriched, .llmHeavy]
  | .claimx => [.llmHeavy, .claim]
  | .trust => [.claim]
  | _ => [.ingest]

/-- The streams whose messages a user can ask for. -/
def fetched : User → List Stream
  | .enrich => [.ingest, .kvDedup, .kvModels]
  | .retrain => [.kvModels]
  | .writer => [.enriched, .tally]
  | .cluster => [.enriched]
  | .claimx => [.llmHeavy]
  | .trust => [.claim]
  | _ => []

variable {user : User} {stream : Stream}

theorem mem_changed :
    (∃ asked, policy.changes user asked stream = true) ↔ stream ∈ changed user := by
  have table : ∀ (user : User) (stream : Stream),
      ((publishes user).map Pattern.ofTokens).any (fun left => ((changing stream).map
        Pattern.ofTokens).any fun right => (left.meet right).isSome) =
      decide (stream ∈ changed user) := by decide +kernel
  rw [← decide_eq_true_iff (p := stream ∈ changed user), ← table, ← permits_both]
  constructor
  · rintro ⟨asked, change⟩
    cases asked with
    | publish subject => exact ⟨subject, Bool.and_eq_true_iff.mp change⟩
    | subscribe subject => exact Bool.noConfusion change
  · rintro ⟨subject, both⟩
    exact ⟨.publish subject, Bool.and_eq_true_iff.mpr both⟩

theorem mem_fetched : (∃ asked, stream ∈ policy.reads user asked) ↔ stream ∈ fetched user := by
  have table : ∀ (user : User) (stream : Stream),
      ((publishes user).map Pattern.ofTokens).any (fun left => ((fetching stream).map
        Pattern.ofTokens).any fun right => (left.meet right).isSome) =
      decide (stream ∈ fetched user) := by decide +kernel
  have apart : ∀ (user : User) (stream : Stream),
      ((subscribes user).map Pattern.ofTokens).any (fun left => ([stream.subjects].map
        Pattern.ofTokens).any fun right => (left.meet right).isSome) = false := by decide +kernel
  rw [← decide_eq_true_iff (p := stream ∈ fetched user), ← table, ← permits_both]
  constructor
  · rintro ⟨asked, read⟩
    cases asked with
    | publish subject =>
      simp only [policy] at read
      split at read
      · exact ⟨subject, ‹_›, (List.mem_filter.mp read).2⟩
      · exact absurd read List.not_mem_nil
    | subscribe subject =>
      simp only [policy] at read
      split at read
      · have meets := permits_both.mp ⟨subject, ‹_›, (List.mem_filter.mp read).2⟩
        rw [apart] at meets
        exact Bool.noConfusion meets
      · exact absurd read List.not_mem_nil
  · rintro ⟨subject, allowed, asks⟩
    refine ⟨.publish subject, ?_⟩
    simp only [policy, if_pos allowed]
    apply List.mem_filter.mpr
    exact ⟨by cases stream <;> decide, asks⟩

end Matrix

/-- The users that hear, through the pipeline, what a user does. The last is the
user himself. -/
def downstream : User → List User
  | .retrain => [.trust, .claimx, .cluster, .writer, .enrich, .retrain]
  | .enrich => [.trust, .claimx, .cluster, .writer, .enrich]
  | .writer => [.trust, .claimx, .cluster, .writer]
  | .cluster => [.trust, .claimx, .writer, .cluster]
  | .claimx => [.trust, .claimx]
  | .trust => [.trust]
  | user => [.trust, .claimx, .cluster, .writer, .enrich, user]

/-- The streams on which a user's credentials can make a difference. -/
def reach : User → List Stream
  | .retrain => [.ingest, .enriched, .tally, .llmHeavy, .claim, .kvDedup, .kvModels]
  | .writer => [.enriched, .tally, .llmHeavy, .claim]
  | .cluster => [.enriched, .tally, .llmHeavy, .claim]
  | .claimx => [.llmHeavy, .claim]
  | .trust => [.claim]
  | _ => [.ingest, .enriched, .tally, .llmHeavy, .claim, .kvDedup]

/-- Some stream that the teller can change is read by the hearer. -/
def feeds (teller hearer : User) : Bool :=
  (changed teller).any fun stream => decide (stream ∈ fetched hearer)

theorem feeds_iff {teller hearer : User} :
    feeds teller hearer = true ↔ ∃ request asked stream,
      policy.changes teller request stream = true ∧ stream ∈ policy.reads hearer asked := by
  simp only [feeds, List.any_eq_true, decide_eq_true_eq, ← mem_changed, ← mem_fetched]
  constructor
  · rintro ⟨stream, ⟨request, change⟩, asked, read⟩
    exact ⟨request, asked, stream, change, read⟩
  · rintro ⟨request, asked, stream, change, read⟩
    exact ⟨stream, ⟨request, change⟩, asked, read⟩

/-- The first hears of someone after it in the list, down to the user at its end. -/
def fedInTurn (intruder : User) : List User → Bool
  | [] => true
  | party :: sources =>
    (decide (party = intruder) || sources.any (feeds · party)) && fedInTurn intruder sources

theorem fedInTurn_tainted {intruder : User} {order : List User}
    (fed : fedInTurn intruder order = true) :
    ∀ party ∈ order, policy.Tainted intruder party := by
  induction order with
  | nil => exact fun _ member => absurd member List.not_mem_nil
  | cons first sources ih =>
    obtain ⟨source, later⟩ := Bool.and_eq_true_iff.mp fed
    intro party member
    cases member with
    | tail _ member => exact ih later party member
    | head =>
      cases Bool.or_eq_true_iff.mp source with
      | inl here =>
        rw [of_decide_eq_true here]
        exact .self
      | inr heard =>
        obtain ⟨teller, member, feeding⟩ := List.any_eq_true.mp heard
        obtain ⟨request, asked, stream, change, read⟩ := feeds_iff.mp feeding
        exact .heard (ih later teller member) change read

theorem tainted_iff {intruder party : User} :
    policy.Tainted intruder party ↔ party ∈ downstream intruder := by
  constructor
  · intro tainted
    have self : ∀ user, user ∈ downstream user := by decide +kernel
    have closed : ∀ user, ∀ teller ∈ downstream user, ∀ hearer, feeds teller hearer = true →
        hearer ∈ downstream user := by decide +kernel
    apply tainted.closed (self intruder)
    intro teller hearer request asked stream inside change read
    exact closed intruder teller inside hearer (feeds_iff.mpr ⟨_, _, _, change, read⟩)
  · have fed : ∀ user, fedInTurn user (downstream user) = true := by decide +kernel
    exact fedInTurn_tainted (fed intruder) party

theorem reached_iff {intruder : User} {stream : Stream} :
    policy.Reached intruder stream ↔ stream ∈ reach intruder := by
  have table : ∀ user stream, stream ∈ reach user ↔
      ∃ party ∈ downstream user, stream ∈ changed party := by decide +kernel
  rw [table]
  constructor
  · rintro ⟨teller, request, tainted, change⟩
    exact ⟨teller, tainted_iff.mp tainted, mem_changed.mp ⟨request, change⟩⟩
  · rintro ⟨teller, member, held⟩
    obtain ⟨request, change⟩ := mem_changed.mpr held
    exact ⟨teller, request, tainted_iff.mpr member, change⟩

end NewsAggregator.Bus
