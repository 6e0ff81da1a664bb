import Mathlib.Algebra.Order.Ring.Defs
import Mathlib.Tactic.Linarith
import NewsAggregator.Enrich.Flush
import NewsAggregator.Gazetteer.Load
import NewsAggregator.Schema.Encoding

/-! The flush loop over whole runs: which windows it can build, publish and survive. -/

namespace NewsAggregator.Enrich

open Foundation

variable {K : Type} [Field K] [LinearOrder K]

/-- A replica with the JSON of its flushes, under the default cap. -/
def TallyReplica.encoding (py : Python) (gazetteer : Gazetteer) (replica : String)
    (enc : Encoding K) : TallyReplica K where
  py
  gazetteer
  replica
  jsonSize flush := (flush.json enc).utf8ByteSize

/-- The tally next to the governor whose state goes into each flush. -/
structure Flusher (K : Type) [Field K] [LinearOrder K] where
  tallies : TallySystem K := {}
  gov : AdmissionGovernor K := .initial

/-- An item is tallied, the governor decides on one, or the loop wakes up and its
publisher works. -/
inductive FlusherEvent (K : Type) where
  | tally (item : Item)
  | govern (relevance : K) (sourceClass : SourceClass) (now : K)
  | wake (now : Int)

def flusherStep (math : MathFns K) (d : TallyReplica K) (state : Flusher K) :
    FlusherEvent K → Flusher K
  | .tally item => { state with tallies := tallyStep d state.tallies (.tally item) }
  | .govern relevance sourceClass now =>
    { state with gov := (state.gov.admits math relevance sourceClass now).2 }
  | .wake now =>
    { state with tallies := tallyStep d state.tallies (.wake now state.gov true) }

/-- The window's flush is built and published, and the loop goes on. -/
def Delivers (math : MathFns K) (d : TallyReplica K) (state : Flusher K) :
    FlusherEvent K → Prop
  | .wake now =>
    let after := (flusherStep math d state (.wake now)).tallies.replica
    after.flushing = true ∧ ∃ flush,
      flushOf d ⟨now, state.gov, state.tallies.replica.mentions⟩ = some flush ∧
        after.flushes = state.tallies.replica.flushes ++ [flush]
  | _ => True

/-- The most frequent entities, where there are too many. -/
def keptCounts (counts : Counter String) : Counter String :=
  if maxTallyEntities < counts.entries.length then counts.mostCommon maxTallyEntities else counts

/-- The bytes of the flush of a window. -/
def flushSize (enc : Encoding K) (replica : String) (now : Int) (gov : AdmissionGovernor K)
    (counts : Counter String) : ℕ :=
  79 + Json.quotedSize (enc.dateTime ⟨minute now, 0⟩) +
    (counts.entries.map fun entry =>
      Json.quotedSize entry.1 + 1 + (toString entry.2).utf8ByteSize).sum +
    (counts.entries.length - 1) + (Json.bool gov.samplingActive).utf8ByteSize +
    (enc.float gov.theta).utf8ByteSize + Json.quotedSize replica +
    Json.quotedSize (enc.dateTime ⟨now, 0⟩)

/-- The keys of the window are neither empty nor too long, nor is the replica's name,
and the flush fits the cap in bytes. -/
def WindowFits (replica : String) (enc : Encoding K) (state : Flusher K) : FlusherEvent K → Prop
  | .wake now =>
    let counts := keptCounts state.tallies.replica.mentions
    (∀ entry ∈ counts.entries, entry.1 ≠ "" ∧ entry.1.length ≤ maxTallyKeyLen) ∧
      replica.length ≤ 128 ∧ flushSize enc replica now state.gov counts ≤ 65536
  | _ => True

instance (replica : String) (enc : Encoding K) (state : Flusher K) :
    DecidablePred (WindowFits replica enc state)
  | .tally _ => isTrue trivial
  | .govern _ _ _ => isTrue trivial
  | .wake _ => inferInstanceAs (Decidable (_ ∧ _))

/-- The default governor keeps its threshold between its bounds. -/
structure Bounded (gov : AdmissionGovernor K) : Prop where
  cfg : gov.cfg = {}
  theta : 0 ≤ gov.theta ∧ gov.theta ≤ 1

section Governor

variable [IsStrictOrderedRing K] {gov : AdmissionGovernor K}

theorem bounded_initial : Bounded (.initial : AdmissionGovernor K) := by
  refine ⟨rfl, le_refl _, zero_le_one⟩

theorem Bounded.admits (bounded : Bounded gov) (math : MathFns K) (relevance : K)
    (sourceClass : SourceClass) (now : K) :
    Bounded (gov.admits math relevance sourceClass now).2 := by
  rw [AdmissionGovernor.admits]
  split
  · exact bounded
  · refine ⟨bounded.cfg, ?_⟩
    have ceiling : (hundredths 99 : K) ≤ 1 := by
      rw [hundredths]
      norm_num
    unfold AdmissionGovernor.step
    rw [bounded.cfg]
    refine ⟨le_max_left _ _, max_le zero_le_one ?_⟩
    exact (min_le_left _ _).trans ceiling

end Governor

section Window

variable {py : Python} {gazetteer : Gazetteer} {replica : String} {enc : Encoding K} {now : Int}
  {gov : AdmissionGovernor K} {counts : Counter String}

theorem keptCounts_length (counts : Counter String) :
    (keptCounts counts).entries.length ≤ maxTallyEntities := by
  rw [keptCounts]
  split
  · exact (List.length_take_le ..)
  · omega

/-- The schema accepts the flush of a bounded governor if the keys and the replica's
name are in order. -/
theorem flushOf_isSome_iff (bounded : Bounded gov) :
    (flushOf (.encoding py gazetteer replica enc) ⟨now, gov, counts⟩).isSome ↔
      (∀ entry ∈ (keptCounts counts).entries, entry.1 ≠ "" ∧ entry.1.length ≤ maxTallyKeyLen) ∧
        replica.length ≤ 128 := by
  have small := keptCounts_length counts
  change (TallyFlush.validate (minute now) (keptCounts counts) _ gov.theta replica now).isSome ↔ _
  rw [TallyFlush.validate]
  split
  · rename_i checks
    exact iff_of_true rfl ⟨checks.2.1, checks.2.2.2⟩
  · rename_i failed
    refine iff_of_false (by simp) fun fine => failed ?_
    exact ⟨small, fine.1, bounded.theta, fine.2⟩

theorem size_flushOf {flush : TallyFlush K}
    (built : flushOf (.encoding py gazetteer replica enc) ⟨now, gov, counts⟩ = some flush) :
    (flush.json enc).utf8ByteSize = flushSize enc replica now gov (keptCounts counts) := by
  change TallyFlush.validate (minute now) (keptCounts counts) _ gov.theta replica now = _ at built
  unfold TallyFlush.validate at built
  split at built
  · cases built
    exact TallyFlush.size_json enc _
  · cases built

end Window

section Run

variable {py : Python} {gazetteer : Gazetteer} {replica : String} {enc : Encoding K}
  {state : Flusher K}

/-- A turn of a running loop ends it, drops the window or publishes its flush. -/
theorem wake_cases (math : MathFns K) (d : TallyReplica K)
    (running : state.tallies.replica.flushing = true)
    (now : Int) :
    let window : Window K := ⟨now, state.gov, state.tallies.replica.mentions⟩
    let after := (flusherStep math d state (.wake now)).tallies.replica
    (flushOf d window = none ∧ after.flushing = false) ∨
      ∃ flush, flushOf d window = some flush ∧ after.flushing = true ∧
        after.flushes = if d.pub.publish "tally.minute" (d.jsonSize flush) true then
          state.tallies.replica.flushes ++ [flush] else state.tallies.replica.flushes := by
  intro window after
  have unfolded : after = flushTallies d now state.gov true state.tallies.replica := rfl
  rw [unfolded]
  rw [flushTallies]
  simp only [running, drainMentions, Bool.not_true, Bool.false_eq_true, if_false]
  cases built : flushOf d window with
  | none => exact .inl ⟨rfl, rfl⟩
  | some flush =>
    refine .inr ⟨flush, rfl, ?_⟩
    cases published : d.pub.publish "tally.minute" (d.jsonSize flush) true with
    | true => simp [published]
    | false => simp [published]

theorem delivers_iff [IsStrictOrderedRing K] (math : MathFns K) (bounded : Bounded state.gov)
    (running : state.tallies.replica.flushing = true) (event : FlusherEvent K) :
    Delivers math (.encoding py gazetteer replica enc) state event ↔
      WindowFits replica enc state event := by
  cases event with
  | tally item => exact Iff.rfl
  | govern relevance sourceClass now => exact Iff.rfl
  | wake now =>
    have valid : (flushOf (.encoding py gazetteer replica enc)
        ⟨now, state.gov, state.tallies.replica.mentions⟩).isSome ↔ _ := flushOf_isSome_iff bounded
    rcases wake_cases math (.encoding py gazetteer replica enc) running now with
      ⟨rejected, _⟩ | ⟨flush, built, going, flushes⟩
    · refine iff_of_false ?_ ?_
      · rintro ⟨_, flush, built, _⟩
        cases rejected.symm.trans built
      · rintro ⟨keys, name, _⟩
        rw [rejected] at valid
        cases valid.mpr ⟨keys, name⟩
    · have size := size_flushOf built
      have decided : (TallyReplica.encoding py gazetteer replica enc).pub.publish "tally.minute"
          ((TallyReplica.encoding py gazetteer replica enc).jsonSize flush) true ↔
          flushSize enc replica now state.gov (keptCounts state.tallies.replica.mentions) ≤
            65536 := by
        rw [← size]
        simp [Bus.ScopedPublisher.publish, TallyReplica.encoding]
      rw [built] at valid
      obtain ⟨keys, name⟩ := valid.mp rfl
      constructor
      · rintro ⟨_, other, same, published⟩
        refine ⟨keys, name, decided.mp ?_⟩
        by_contra rejected
        rw [flushes, if_neg rejected] at published
        simp at published
      · rintro ⟨_, _, fits⟩
        refine ⟨going, flush, built, ?_⟩
        rw [flushes, if_pos (decided.mpr fits)]

/-- Along a run of the loop every window is delivered exactly if every window fits. -/
theorem windows_delivered_iff [IsStrictOrderedRing K] (math : MathFns K) (py : Python)
    (gazetteer : Gazetteer) (replica : String) (enc : Encoding K)
    (events : List (FlusherEvent K)) :
    let d := TallyReplica.encoding py gazetteer replica enc
    Along (flusherStep math d) (Delivers math d) {} events ↔
      Along (flusherStep math d) (WindowFits replica enc) {} events := by
  intro d
  have every : Along (flusherStep math d) (fun _ _ => True) {} events :=
    along_of_forall fun _ _ => trivial
  refine along_congr every
    (fun state => Bounded state.gov ∧ state.tallies.replica.flushing = true)
    ⟨bounded_initial, rfl⟩ (fun state event kept _ => delivers_iff math kept.1 kept.2 event) ?_
  rintro state event ⟨bounded, running⟩ delivers
  cases event with
  | tally item =>
    refine ⟨bounded, ?_⟩
    rw [flusherStep, tallyStep]
    dsimp only
    split <;> exact running
  | govern relevance sourceClass now => exact ⟨bounded.admits .., running⟩
  | wake now => exact ⟨bounded, delivers.1⟩

end Run

def constantMath : MathFns ℚ := ⟨fun _ => 1, fun _ => 0⟩

theorem kyiv_window_delivered :
    let d : TallyReplica ℚ := .encoding .plain .seed "enrich-0" plainEncoding
    Along (flusherStep constantMath d) (Delivers constantMath d) {}
      [.tally (notice 1 "usgs" "quake in Kyiv"), .govern 1 .social 0, .wake 0, .wake 60000000] :=
  (windows_delivered_iff constantMath .plain .seed "enrich-0" plainEncoding _).mpr
    (by decide +kernel)

/-- A file whose only entry has an empty canonical name. -/
def namelessGazetteer : Gazetteer :=
  loadGazetteer .plain [some { phrase := "Acme", canonical := some "" }]

/-- One hit of the entry ends the loop at its next turn. -/
theorem nameless_ends_flushing :
    let d : TallyReplica ℚ := .encoding .plain namelessGazetteer "enrich-0" plainEncoding
    ¬ Along (flusherStep constantMath d) (Delivers constantMath d) {}
      [.tally (notice 1 "usgs" "quake at acme"), .wake 0] := by
  rintro d ⟨_, delivered, _⟩
  exact absurd delivered.1 (by decide +kernel)

end NewsAggregator.Enrich
