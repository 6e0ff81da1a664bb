import Mathlib.Data.List.Pairwise
import NewsAggregator.Enrich.Flush
import NewsAggregator.Foundation.FirstWins

/-! What of the mentions a replica has drained ends up in the database, once all its
flushes were handled. -/

namespace NewsAggregator.Enrich

open Foundation

variable {K : Type} [Field K] [LinearOrder K]

/-- The mentions of the entity in the replica's rows. -/
def storedMentions (store : TallyStore K) (replica entity : String) : ℕ :=
  ((store.entityTallies.filter fun row => row.entity = entity ∧ row.replica = replica).map
    TallyRow.mentions).sum

/-- The mentions of the entity in all drained windows. -/
def drainedMentions (windows : List (Window K)) (entity : String) : ℕ :=
  (windows.map fun window => window.counts.count entity).sum

/-- Every publish succeeds, and no window is too large to be flushed whole. -/
def Undisturbed (d : TallyReplica K) (system : TallySystem K) : TallyEvent K → Prop
  | .wake now gov sent =>
    system.replica.mentions.entries.length ≤ maxTallyEntities ∧
      ∀ flush ∈ flushOf d ⟨now, gov, system.replica.mentions⟩,
        d.pub.publish "tally.minute" (d.jsonSize flush) sent
  | _ => True

/-- The writer has handled every flush of the replica. -/
def AllHandled (system : TallySystem K) : Prop :=
  ∀ index < system.replica.flushes.length, index ∈ system.handled

/-- Windows of one minute share no entity. -/
def Apart (first second : Window K) : Prop :=
  minute first.now = minute second.now → ∀ entity ∈ first.counts.keys, entity ∉ second.counts.keys

omit [LinearOrder K] in
instance (first second : Window K) : Decidable (Apart first second) :=
  inferInstanceAs (Decidable (_ → _))

/-- No window with mentions was rejected, and no two windows of one minute share an
entity. -/
def Separate (d : TallyReplica K) (windows : List (Window K)) : Prop :=
  (∀ window ∈ windows, window.counts.entries ≠ [] → (flushOf d window).isSome) ∧
    windows.Pairwise Apart

/-- The buckets and counts of the replica's rows for the entity. -/
def rowsOf (store : TallyStore K) (replica entity : String) : List (Int × ℕ) :=
  (store.entityTallies.filter fun row => row.entity = entity ∧ row.replica = replica).map
    fun row => (row.bucketTs, row.mentions)

/-- The bucket and the count a window has for the entity. -/
def offer (entity : String) (window : Window K) : Option (Int × ℕ) :=
  if window.counts.count entity = 0 then none
  else some (minute window.now, window.counts.count entity)

/-- The rows of the database come of the windows that were flushed, and a handled
flush has a row for each of its entities. -/
structure Ledger (d : TallyReplica K) (system : TallySystem K) : Prop where
  small : ∀ window ∈ system.replica.windows, window.counts.entries.length ≤ maxTallyEntities
  published : system.replica.flushes = system.replica.windows.filterMap (flushOf d)
  range : ∀ index ∈ system.handled, index < system.replica.flushes.length
  distinct : (system.db.entityTallies.map TallyRow.key).Nodup
  origin : ∀ row ∈ system.db.entityTallies, row.replica = d.replica ∧
    ∃ window ∈ system.replica.windows, (flushOf d window).isSome ∧
      offer row.entity window = some (row.bucketTs, row.mentions)
  covered : ∀ index ∈ system.handled, ∀ flush ∈ system.replica.flushes[index]?,
    ∀ entry ∈ flush.counts, ∃ row ∈ system.db.entityTallies,
      row.key = (entry.1, flush.bucketTs, d.replica)

section Windows

variable {d : TallyReplica K} {windows : List (Window K)} {window : Window K} {entity : String}

omit [LinearOrder K] in
theorem offer_eq_some {bucket : Int} {n : ℕ} : offer entity window = some (bucket, n) ↔
    minute window.now = bucket ∧ window.counts.count entity = n ∧ 0 < n := by
  rw [offer]
  split
  · rename_i none
    simp only [reduceCtorEq, false_iff, not_and]
    omega
  · rename_i counted
    simp only [Option.some.injEq, Prod.mk.injEq]
    omega

/-- A flush carries its window whole. -/
theorem flushOf_spec {flush : TallyFlush K} (built : flushOf d window = some flush)
    (small : window.counts.entries.length ≤ maxTallyEntities) :
    flush.bucketTs = minute window.now ∧ flush.counts = window.counts.entries ∧
      flush.replica = d.replica := by
  unfold flushOf TallyFlush.validate at built
  rw [if_neg (not_lt.mpr small)] at built
  dsimp only at built
  split at built
  · cases built
    exact ⟨rfl, rfl, rfl⟩
  · cases built

omit [LinearOrder K] in
theorem drainedMentions_eq : drainedMentions windows entity =
    ((windows.filterMap (offer entity)).map Prod.snd).sum := by
  rw [drainedMentions]
  induction windows with
  | nil => rfl
  | cons window rest ih =>
    rw [List.map_cons, List.sum_cons, ih, List.filterMap_cons]
    cases offered : offer entity window with
    | none =>
      unfold offer at offered
      split at offered
      · simp [*]
      · cases offered
    | some pair =>
      obtain ⟨bucket, n⟩ := pair
      rw [List.map_cons, List.sum_cons, (offer_eq_some.mp offered).2.1]

omit [LinearOrder K] in
/-- No two windows of one minute share an entity exactly when each entity is offered
at most once for a minute. -/
theorem pairwise_iff_once : windows.Pairwise Apart ↔
    ∀ entity, ((windows.filterMap (offer entity)).map Prod.fst).Nodup := by
  have apart (entity : String) : ((windows.filterMap (offer entity)).map Prod.fst).Nodup ↔
      windows.Pairwise fun first second => minute first.now = minute second.now →
        entity ∈ first.counts.keys → entity ∉ second.counts.keys := by
    rw [List.Nodup, List.pairwise_map, List.pairwise_filterMap]
    apply List.Pairwise.iff
    intro first second
    rw [Counter.mem_keys, Counter.mem_keys]
    constructor
    · intro different same counted counted'
      exact different _ (offer_eq_some.mpr ⟨rfl, rfl, Nat.pos_of_ne_zero counted⟩) _
        (offer_eq_some.mpr ⟨rfl, rfl, Nat.pos_of_ne_zero counted'⟩) same
    · rintro apart ⟨bucket, n⟩ offered ⟨bucket', n'⟩ offered' same
      obtain ⟨rfl, rfl, positive⟩ := offer_eq_some.mp offered
      obtain ⟨rfl, rfl, positive'⟩ := offer_eq_some.mp offered'
      exact apart same positive.ne' positive'.ne'
  simp only [apart, List.pairwise_iff_getElem, Apart]
  exact ⟨fun each entity i j iLt jLt lt same member => each i j iLt jLt lt same entity member,
    fun each i j iLt jLt lt same entity member => each entity i j iLt jLt lt same member⟩

omit [LinearOrder K] in
/-- A window is another one, or shares no entity with it in one minute. -/
theorem eq_or_apart (apart : windows.Pairwise Apart) {other : Window K}
    (drained : window ∈ windows) (otherDrained : other ∈ windows) :
    window = other ∨ Apart window other := by
  by_cases same : window = other
  · exact .inl same
  · have symmetric : Std.Symm (Apart (K := K)) :=
      ⟨fun _ _ apart same entity member other => apart same.symm entity other member⟩
    exact .inr (apart.forall drained otherDrained same)

end Windows

section Run

variable {d : TallyReplica K} {system : TallySystem K}

theorem wake_ledger {now : Int} {gov : AdmissionGovernor K} {sent : Bool} (ledger : Ledger d system)
    (undisturbed : Undisturbed d system (.wake now gov sent)) :
    Ledger d (tallyStep d system (.wake now gov sent)) := by
  have same : tallyStep d system (.wake now gov sent) =
      { system with replica := flushTallies d now gov sent system.replica } := rfl
  cases ended : system.replica.flushing with
  | false =>
    have idle : flushTallies d now gov sent system.replica = system.replica := by
      simp [flushTallies, ended]
    rw [same, idle]
    exact ledger
  | true =>
    obtain ⟨windows, flushes⟩ := flushTallies_running ended undisturbed.2
    rw [same]
    refine ⟨?_, ?_, ?_, ledger.distinct, ?_, ?_⟩
    · dsimp only
      rw [windows]
      intro other member
      rcases List.mem_append.mp member with old | new
      · exact ledger.small other old
      · rw [List.mem_singleton.mp new]
        exact undisturbed.1
    · dsimp only
      rw [windows, flushes, ledger.published, List.filterMap_append]
      congr 1
    · intro index member
      have bound := ledger.range index member
      dsimp only
      rw [flushes, List.length_append]
      omega
    · intro row member
      obtain ⟨own, other, listed, rest⟩ := ledger.origin row member
      dsimp only
      rw [windows]
      exact ⟨own, other, List.mem_append_left _ listed, rest⟩
    · intro index member flush stored
      dsimp only at stored
      rw [flushes, List.getElem?_append_left (ledger.range index member)] at stored
      exact ledger.covered index member flush stored

theorem deliver_ledger {index : ℕ} {cut : Option ℕ} (ledger : Ledger d system) :
    Ledger d (tallyStep d system (.deliver index cut)) := by
  cases stored : system.replica.flushes[index]? with
  | none =>
    have same : tallyStep d system (.deliver index cut) = system := by simp [tallyStep, stored]
    rw [same]
    exact ledger
  | some flush =>
    obtain ⟨db, handled, next, more, rows⟩ := tallyStep_deliver d cut stored
    rw [next]
    rcases rows with ⟨same, rfl⟩ | inserted
    · refine ⟨ledger.small, ledger.published, ledger.range, ?_, ?_, ?_⟩
      · dsimp only
        rw [same]
        exact ledger.distinct
      · dsimp only
        rw [same]
        exact ledger.origin
      · dsimp only
        rw [same]
        exact ledger.covered
    rw [entityTallies_insertTallies] at inserted
    obtain ⟨nodup, kept, origin, covers⟩ := foldl_insertTally (tallyRows flush)
      ledger.distinct
    rw [← inserted] at nodup kept origin covers
    have listed := List.mem_of_getElem? stored
    rw [ledger.published] at listed
    obtain ⟨window, drained, built⟩ := List.mem_filterMap.mp listed
    obtain ⟨bucket, counts, replica⟩ := flushOf_spec built (ledger.small window drained)
    refine ⟨ledger.small, ledger.published, ?_, nodup, ?_, ?_⟩
    · intro other member
      rcases Finset.mem_insert.mp (more member) with rfl | old
      · exact (List.getElem?_eq_some_iff.mp stored).1
      · exact ledger.range other old
    · intro row member
      rcases origin row member with old | new
      · exact ledger.origin row old
      · obtain ⟨⟨entity, n⟩, entry, rfl⟩ := List.mem_map.mp new
        rw [counts] at entry
        obtain ⟨counted, positive⟩ := Counter.mem_entries.mp entry
        refine ⟨replica, window, drained, by rw [built]; rfl, ?_⟩
        exact offer_eq_some.mpr ⟨bucket.symm, counted, positive⟩
    · intro other member present found entry carried
      rcases Finset.mem_insert.mp (more member) with rfl | old
      · cases stored.symm.trans found
        rw [← replica]
        exact covers _ (List.mem_map_of_mem carried)
      · obtain ⟨row, before, key⟩ := ledger.covered other old present found entry carried
        exact ⟨row, kept before, key⟩

theorem tallyStep_ledger {event : TallyEvent K} (ledger : Ledger d system)
    (undisturbed : Undisturbed d system event) : Ledger d (tallyStep d system event) := by
  cases event with
  | tally item =>
    rw [tallyStep]
    split
    · exact ledger
    · exact ⟨ledger.small, ledger.published, ledger.range, ledger.distinct, ledger.origin,
        ledger.covered⟩
  | wake now gov sent => exact wake_ledger ledger undisturbed
  | restart =>
    exact ⟨ledger.small, ledger.published, ledger.range, ledger.distinct, ledger.origin,
      ledger.covered⟩
  | deliver index cut => exact deliver_ledger ledger

omit [Field K] [LinearOrder K] in
theorem mem_rowsOf {store : TallyStore K} {replica entity : String} {bucket : Int} {n : ℕ} :
    (bucket, n) ∈ rowsOf store replica entity ↔
      ⟨entity, bucket, replica, n⟩ ∈ store.entityTallies := by
  rw [rowsOf]
  simp only [List.mem_map, List.mem_filter, decide_eq_true_eq]
  constructor
  · rintro ⟨⟨_, _, _, _⟩, ⟨member, rfl, rfl⟩, same⟩
    cases same
    exact member
  · exact fun member => ⟨_, ⟨member, rfl, rfl⟩, rfl⟩

theorem Ledger.nodup_rowsOf (ledger : Ledger d system) (entity : String) :
    ((rowsOf system.db d.replica entity).map Prod.fst).Nodup := by
  have keys : ((system.db.entityTallies.filter fun row =>
      row.entity = entity ∧ row.replica = d.replica).map TallyRow.key).Nodup :=
    ledger.distinct.sublist (List.filter_sublist.map _)
  rw [rowsOf, List.map_map]
  refine List.Nodup.map_on (fun row member other otherMember same => ?_) keys.of_map
  have own := of_decide_eq_true (List.mem_filter.mp member).2
  have otherOwn := of_decide_eq_true (List.mem_filter.mp otherMember).2
  refine List.inj_on_of_nodup_map keys member otherMember ?_
  rw [TallyRow.key, own.1, own.2, TallyRow.key, otherOwn.1, otherOwn.2]
  exact congrArg _ (congrArg (·, _) same)

theorem Ledger.rowsOf_subset (ledger : Ledger d system) (entity : String) :
    rowsOf system.db d.replica entity ⊆ system.replica.windows.filterMap (offer entity) := by
  rintro ⟨bucket, n⟩ member
  obtain ⟨_, window, drained, _, offered⟩ := ledger.origin _ (mem_rowsOf.mp member)
  exact List.mem_filterMap.mpr ⟨window, drained, offered⟩

/-- The entity's mentions are conserved exactly when its rows are all its offers. -/
theorem Ledger.conserved_iff (ledger : Ledger d system) (entity : String) :
    storedMentions system.db d.replica entity = drainedMentions system.replica.windows entity ↔
      (rowsOf system.db d.replica entity).Perm
        (system.replica.windows.filterMap (offer entity)) := by
  have stored : storedMentions system.db d.replica entity =
      ((rowsOf system.db d.replica entity).map Prod.snd).sum := by
    rw [rowsOf, List.map_map, storedMentions]
    rfl
  rw [stored, drainedMentions_eq]
  refine sum_eq_iff_perm (ledger.nodup_rowsOf entity) (ledger.rowsOf_subset entity) ?_
  rintro ⟨bucket, n⟩ member
  obtain ⟨window, _, offered⟩ := List.mem_filterMap.mp member
  exact (offer_eq_some.mp offered).2.2

end Run

section Conserved

variable {d : TallyReplica K} {system : TallySystem K}

/-- Conserved mentions leave no window rejected and no two windows in conflict. -/
theorem Ledger.separate_of_conserved (ledger : Ledger d system)
    (conserved : ∀ entity, storedMentions system.db d.replica entity =
      drainedMentions system.replica.windows entity) : Separate d system.replica.windows := by
  have perm entity := (ledger.conserved_iff entity).mp (conserved entity)
  have apart := pairwise_iff_once.mpr fun entity =>
    ((perm entity).map Prod.fst).nodup_iff.mp (ledger.nodup_rowsOf entity)
  refine ⟨fun window drained counted => ?_, apart⟩
  obtain ⟨⟨entity, n⟩, entry⟩ := List.exists_mem_of_ne_nil _ counted
  have offered : offer entity window = some (minute window.now, n) :=
    offer_eq_some.mpr ⟨rfl, Counter.mem_entries.mp entry⟩
  -- the row of this offer came of a window that was flushed
  have row := mem_rowsOf.mp ((perm entity).mem_iff.mpr
    (List.mem_filterMap.mpr ⟨window, drained, offered⟩))
  obtain ⟨_, other, otherDrained, flushed, otherOffered⟩ := ledger.origin _ row
  obtain ⟨sameMinute, counted', positive⟩ := offer_eq_some.mp otherOffered
  have member : entity ∈ window.counts.keys := List.mem_map.mpr ⟨_, entry, rfl⟩
  have otherMember : entity ∈ other.counts.keys := Counter.mem_keys.mpr (counted' ▸ positive.ne')
  rcases eq_or_apart apart drained otherDrained with rfl | apart
  · exact flushed
  · exact absurd otherMember (apart sameMinute.symm entity member)

/-- Where every flush was handled, an offer of a flushed window has a row. -/
theorem Ledger.row_of_flushed (ledger : Ledger d system) (handled : AllHandled system)
    {window : Window K} (drained : window ∈ system.replica.windows)
    (flushed : (flushOf d window).isSome) {entity : String} {n : ℕ}
    (entry : (entity, n) ∈ window.counts.entries) :
    minute window.now ∈ (rowsOf system.db d.replica entity).map Prod.fst := by
  obtain ⟨flush, built⟩ := Option.isSome_iff_exists.mp flushed
  obtain ⟨sameBucket, counts, _⟩ := flushOf_spec built (ledger.small window drained)
  have published : flush ∈ system.replica.flushes := by
    rw [ledger.published]
    exact List.mem_filterMap.mpr ⟨window, drained, built⟩
  obtain ⟨index, bound, same⟩ := List.mem_iff_getElem.mp published
  have found : flush ∈ system.replica.flushes[index]? := by
    rw [List.getElem?_eq_getElem bound, same]
    rfl
  obtain ⟨row, stored, key⟩ := ledger.covered index (handled index bound) flush found _
    (counts ▸ entry)
  obtain ⟨_, _, _, mentions⟩ := row
  rw [sameBucket] at key
  cases key
  exact List.mem_map.mpr ⟨_, mem_rowsOf.mpr stored, rfl⟩

theorem Ledger.conserved_of_separate (ledger : Ledger d system) (handled : AllHandled system)
    (separate : Separate d system.replica.windows) (entity : String) :
    storedMentions system.db d.replica entity =
      drainedMentions system.replica.windows entity := by
  obtain ⟨valid, apart⟩ := separate
  apply (ledger.conserved_iff entity).mpr
  apply perm_of_covers (ledger.nodup_rowsOf entity) (ledger.rowsOf_subset entity)
    (pairwise_iff_once.mp apart entity)
  rintro ⟨bucket, n⟩ member
  obtain ⟨window, drained, offered⟩ := List.mem_filterMap.mp member
  obtain ⟨sameBucket, counted⟩ := offer_eq_some.mp offered
  have entry := Counter.mem_entries.mpr counted
  rw [← sameBucket]
  have flushed := valid window drained (List.ne_nil_of_mem entry)
  exact ledger.row_of_flushed handled drained flushed entry

end Conserved

/-- Once all flushes were handled the database holds, for every entity, the mentions
of all drained windows exactly when the windows are separate. -/
theorem tallies_conserved_iff (d : TallyReplica K) (events : List (TallyEvent K))
    (undisturbed : Along (tallyStep d) (Undisturbed d) {} events)
    (handled : AllHandled (run (tallyStep d) {} events)) :
    (∀ entity, storedMentions (run (tallyStep d) {} events).db d.replica entity =
        drainedMentions (run (tallyStep d) {} events).replica.windows entity) ↔
      Separate d (run (tallyStep d) {} events).replica.windows := by
  have start : Ledger d {} := by
    refine ⟨?_, ?_, ?_, ?_, ?_, ?_⟩
    all_goals simp
  have ledger := undisturbed.invariant (Ledger d) start fun _ _ ledger meets =>
    tallyStep_ledger ledger meets
  exact ⟨ledger.separate_of_conserved, ledger.conserved_of_separate handled⟩

instance (d : TallyReplica K) (system : TallySystem K) :
    (event : TallyEvent K) → Decidable (Undisturbed d system event)
  | .wake .. => inferInstanceAs (Decidable (_ ∧ _))
  | .tally _ | .restart | .deliver .. => isTrue trivial

instance (system : TallySystem K) : Decidable (AllHandled system) :=
  inferInstanceAs (Decidable (∀ _ < _, _))

instance (d : TallyReplica K) (windows : List (Window K)) : Decidable (Separate d windows) :=
  inferInstanceAs (Decidable (_ ∧ _))

/-- A replica on plain text. -/
def tallyReplica : TallyReplica ℚ where
  py := .plain
  gazetteer := .seed
  replica := "enrich-0"
  jsonSize _ := 1024

/-- A mention, drained and flushed at the time. -/
def mentionedAt (now : Int) : List (TallyEvent ℚ) :=
  [.tally (notice 1 "usgs" "quake in Kyiv"), .wake now .initial true]

theorem minutes_conserved :
    let events := mentionedAt 59000000 ++ mentionedAt 61000000 ++
      [.deliver 1 none, .deliver 0 (some 1), .deliver 1 none, .deliver 0 none]
    ∀ entity, storedMentions (run (tallyStep tallyReplica) {} events).db "enrich-0" entity =
      drainedMentions (run (tallyStep tallyReplica) {} events).replica.windows entity := by
  intro events
  exact (tallies_conserved_iff tallyReplica events (by decide +kernel) (by decide +kernel)).mpr
    (by decide +kernel)

/-- The final flush on shutdown and the first one after the restart share a minute. -/
theorem minute_shared :
    let events := mentionedAt 61000000 ++ [.restart] ++ mentionedAt 110000000 ++
      [.deliver 0 none, .deliver 1 none]
    let system := run (tallyStep tallyReplica) {} events
    (Along (tallyStep tallyReplica) (Undisturbed tallyReplica) {} events ∧ AllHandled system) ∧
      storedMentions system.db "enrich-0" "kyiv" = 1 ∧
      drainedMentions system.replica.windows "kyiv" = 2 := by
  decide +kernel

end NewsAggregator.Enrich
