import NewsAggregator.Foundation.Fifo
import NewsAggregator.Foundation.Run
import NewsAggregator.Ingest.Runner
import NewsAggregator.Ingest.Total

/-! What the streaming ingesters do with a record: it is filtered, normalized, looked up
in the memory of the last hashes, published and remembered. -/

namespace NewsAggregator.Ingest

open Foundation Fifo

/-- The memory of an ingester, and the hashes of the items it published, oldest first. -/
structure Sink where
  seen : List String := []
  published : List String := []

/-- `publish`, where it returns, and `_remember`. -/
def Sink.push (sink : Sink) (hash : String) : Sink where
  seen := remember runnerSeenCap sink.seen hash
  published := sink.published ++ [hash]

/-- The body of the loops behind `should_keep` and `normalize`, and whether it ends
without an exception. -/
def Sink.emit (sink : Sink) (made : Except PyError (Option Emitted)) (sends : Bool) : Sink × Bool :=
  match made with
  | .error _ => (sink, false)
  | .ok none => (sink, true)
  | .ok (some emitted) =>
    if emitted.item.contentHash ∈ sink.seen then (sink, true)
    else if sends then (sink.push emitted.item.contentHash, true)
    else (sink, false)

/-- No hash is among the last ones before it. -/
def Spaced (published : List String) : Prop :=
  EachStep (fun before hash => hash ∉ before.rtake runnerSeenCap) published

/-- The memory holds the last hashes, and none was published while it was held. -/
structure Sink.Sound (sink : Sink) : Prop where
  seen : sink.seen = sink.published.rtake runnerSeenCap
  spaced : Spaced sink.published

section Records

variable (rt : Runtime) (feed : Feed)

/-- The record passes the filter and gives an item with this hash. -/
def Carries (record : PyValue) (hash : String) : Prop :=
  ∃ fresh emitted, feed.path rt fresh record = .ok (some emitted) ∧
    emitted.item.contentHash = hash

/-- The hashes of these records were published. -/
def Covered (published : List String) (records : List PyValue) : Prop :=
  ∀ record ∈ records, ∀ hash, Carries rt feed record hash → hash ∈ published

/-- The hash of a record does not depend on when it is read. -/
def Steady : Prop := ∀ (first second : Fresh) (record : PyValue) (emitted : Emitted),
  feed.path rt first record = .ok (some emitted) → ∃ again,
    feed.path rt second record = .ok (some again) ∧
      again.item.contentHash = emitted.item.contentHash

variable {rt feed} {published later : List String} {first second : List PyValue}

theorem Covered.append : Covered rt feed published (first ++ second) ↔
    Covered rt feed published first ∧ Covered rt feed published second := by
  simp [Covered, or_imp, forall_and]

theorem Covered.mono (covered : Covered rt feed published first) (grows : published ⊆ later) :
    Covered rt feed later first :=
  fun record member hash carries => grows (covered record member hash carries)

theorem Covered.subset (covered : Covered rt feed published first) (fewer : second ⊆ first) :
    Covered rt feed published second :=
  fun record member => covered record (fewer member)

theorem covered_one {record : PyValue} : Covered rt feed published [record] ↔
    ∀ hash, Carries rt feed record hash → hash ∈ published := by
  simp [Covered]

theorem covered_nil : Covered rt feed published [] := by
  simp [Covered]

end Records

section Emit

variable {rt : Runtime} {feed : Feed} {sink : Sink} {hash : String}
  {fresh : Fresh} {record : PyValue}

theorem Sink.sound_start : Sink.Sound {} := ⟨by simp [List.rtake], eachStep_nil⟩

theorem Sink.Sound.push (sound : sink.Sound) (absent : hash ∉ sink.seen) :
    (sink.push hash).Sound := by
  have full : 1 ≤ runnerSeenCap := by
    unfold runnerSeenCap
    omega
  constructor
  · have grown : remember runnerSeenCap sink.seen hash =
        (sink.seen ++ [hash]).rtake runnerSeenCap := by
      rw [remember_of_not_mem absent, List.rtake, List.length_append, List.length_singleton]
    rw [Sink.push, grown, sound.seen, rtake_rtake_concat]
  · exact eachStep_concat.mpr ⟨sound.spaced, sound.seen ▸ absent⟩

/-- What is made of a record tells what it carries. -/
theorem Steady.carries_iff (steady : Steady rt feed) (fresh : Fresh) :
    Carries rt feed record hash ↔
      ∃ emitted, feed.path rt fresh record = .ok (some emitted) ∧
        emitted.item.contentHash = hash := by
  constructor
  · rintro ⟨other, emitted, made, rfl⟩
    exact steady other fresh record emitted made
  · rintro ⟨emitted, made, same⟩
    exact ⟨fresh, emitted, made, same⟩

/-- What has become of a sink and the records it was handed: it is sound, it published
nothing but what they carry, and all of that if no record ended the loop. -/
structure Handled (rt : Runtime) (feed : Feed) (sink : Sink) (records : List PyValue)
    (result : Sink × Bool) : Prop where
  sound : result.1.Sound
  grows : sink.published ⊆ result.1.published
  covers : result.2 = true → Covered rt feed result.1.published records
  origin : ∀ hash ∈ result.1.published, hash ∈ sink.published ∨
    ∃ record ∈ records, Carries rt feed record hash

theorem handled_none (sound : sink.Sound) (records : List PyValue) :
    Handled rt feed sink records (sink, false) :=
  ⟨sound, List.Subset.refl _, nofun, fun _ old => .inl old⟩

theorem handled_nil (sound : sink.Sound) : Handled rt feed sink [] (sink, true) :=
  ⟨sound, List.Subset.refl _, fun _ => covered_nil, fun _ old => .inl old⟩

theorem emit_handled (steady : Steady rt feed) (sound : sink.Sound) (fresh : Fresh)
    (record : PyValue) (sends : Bool) :
    Handled rt feed sink [record] (sink.emit (feed.path rt fresh record) sends) := by
  have known : sink.seen ⊆ sink.published := by
    rw [sound.seen]
    exact List.drop_subset _ _
  -- nothing is published, and what the record carries is known
  have passed (covered : ∀ hash, Carries rt feed record hash → hash ∈ sink.published) :
      Handled rt feed sink [record] (sink, true) :=
    ⟨sound, List.Subset.refl _, fun _ => covered_one.mpr covered, fun _ old => .inl old⟩
  rcases made : feed.path rt fresh record with error | none | emitted
  · exact handled_none sound _
  · refine passed fun hash carries => ?_
    obtain ⟨emitted, other, _⟩ := (steady.carries_iff fresh).mp carries
    cases made.symm.trans other
  · have own : ∀ hash, Carries rt feed record hash ↔ emitted.item.contentHash = hash := by
      intro hash
      rw [steady.carries_iff fresh, made]
      simp
    rw [Sink.emit]
    split
    · rename_i held
      exact passed fun hash carries => (own hash).mp carries ▸ known held
    · rename_i absent
      split
      · refine ⟨sound.push absent, List.subset_append_left _ _, fun _ => ?_, ?_⟩
        · rw [covered_one]
          intro hash carries
          rw [← (own hash).mp carries]
          exact List.mem_append_right _ List.mem_cons_self
        · intro hash published
          rcases List.mem_append.mp published with old | last
          · exact .inl old
          · exact .inr ⟨record, List.mem_cons_self,
              (own hash).mpr (List.mem_singleton.mp last).symm⟩
      · exact handled_none sound _

/-- The records after a first one that did not end the loop. -/
theorem Handled.cons {next : Sink} {records : List PyValue} {result : Sink × Bool}
    (first : Handled rt feed sink [record] (next, true))
    (rest : Handled rt feed next records result) :
    Handled rt feed sink (record :: records) result := by
  refine ⟨rest.sound, List.Subset.trans first.grows rest.grows, fun done => ?_, ?_⟩
  · rw [← List.singleton_append, Covered.append]
    exact ⟨(first.covers rfl).mono rest.grows, rest.covers done⟩
  · intro hash published
    rcases rest.origin hash published with earlier | ⟨other, member, carries⟩
    · rcases first.origin hash earlier with old | ⟨other, member, carries⟩
      · exact .inl old
      · exact .inr ⟨other, List.mem_cons.mpr (.inl (List.mem_singleton.mp member)), carries⟩
    · exact .inr ⟨other, List.mem_cons_of_mem _ member, carries⟩

/-- Where a record ends the loop, the others are not looked at. -/
theorem Handled.ends {next : Sink} {records : List PyValue}
    (first : Handled rt feed sink [record] (next, false)) :
    Handled rt feed sink (record :: records) (next, false) := by
  refine ⟨first.sound, first.grows, nofun, fun hash published => ?_⟩
  rcases first.origin hash published with old | ⟨other, member, carries⟩
  · exact .inl old
  · exact .inr ⟨record, List.mem_cons_self, List.mem_singleton.mp member ▸ carries⟩

/-- A record that returns, and whose item goes out, does not end the loop. -/
theorem emit_ends (sink : Sink) (tame : feed.Tame rt fresh record) :
    (sink.emit (feed.path rt fresh record) true).2 = true := by
  obtain ⟨made, same, -⟩ := returns_path.mpr tame
  rw [same]
  cases made with
  | none => rfl
  | some emitted =>
    rw [Sink.emit]
    split <;> rfl

/-- Only a record that returns does not end the loop. -/
theorem tame_of_emit {sends : Bool}
    (ended : (sink.emit (feed.path rt fresh record) sends).2 = true) :
    feed.Tame rt fresh record := by
  rw [← returns_path]
  cases made : feed.path rt fresh record with
  | error error =>
    rw [made] at ended
    cases ended
  | ok result => exact ⟨result, rfl, trivial⟩

end Emit

section Feeds

variable {rt : Runtime} {feed : Feed}

/-- The hash an item is made with does not depend on the clock. -/
theorem steady_of_ends (same : ∀ (first second : Fresh) (record : PyValue) (hash : String),
    Ends (feed.path rt first record) (fun made =>
      ∃ emitted ∈ made, emitted.item.contentHash = hash) →
    Ends (feed.path rt second record) fun made =>
      ∃ emitted ∈ made, emitted.item.contentHash = hash) : Steady rt feed := by
  intro first second record emitted made
  obtain ⟨_, again, other, rfl, hash⟩ := same first second record emitted.item.contentHash
    ⟨some emitted, made, emitted, rfl, rfl⟩
  exact ⟨other, again, hash⟩

@[simp] theorem contentHash_emitted {args : ItemArgs} (sized : args.Sized) (fresh : Fresh) :
    (sized.emitted fresh).item.contentHash = args.contentHash.text := rfl

theorem steady_mastodon (rt : Runtime) (langs : List PyStr) (skipBots : Bool)
    (instanceName : String) :
    Steady rt (.mastodon langs skipBots instanceName) := by
  refine steady_of_ends fun first second record hash ends => ?_
  simp only [Feed.path, Feed.normalize, filtered, ends_bind, ends_ite, ends_pure,
    Mastodon.ends_shouldKeep, Mastodon.ends_normalize] at ends ⊢
  simpa using ends

theorem steady_bluesky (rt : Runtime) (langs : List PyStr) : Steady rt (.bluesky langs) := by
  refine steady_of_ends fun first second record hash ends => ?_
  simp only [Feed.path, Feed.normalize, filtered, ends_bind, ends_ite, ends_pure,
    Bluesky.ends_shouldKeep, Bluesky.ends_normalize] at ends ⊢
  simpa using ends

end Feeds

end NewsAggregator.Ingest
