import Mathlib.Data.List.Nodup
import NewsAggregator.Bus.Client
import NewsAggregator.Foundation.Run
import NewsAggregator.Writer.Wall

/-! The writer's consumer next to the cluster service: deliveries in any order and
number, cut off anywhere, between updates of the same rows. -/

namespace NewsAggregator.Writer

open Foundation Bus

/-- The messages of the stream by sequence number. -/
structure Deployment where
  maxMsgBytes : ℕ := 81920
  stream : ℕ → Message EnrichedItem

/-- The item the handler gets to see of a message. -/
def Deployment.item (d : Deployment) (seq : ℕ) : Option EnrichedItem :=
  accepted d.maxMsgBytes (d.stream seq)

/-- One turn of `consume_validated`: a message is acked after its handler returned. -/
def Deployment.deliver (d : Deployment) (seq : ℕ) : Program WriterStmt Unit :=
  match d.item seq with
  | none => return ()
  | some enriched => do
    insertItem enriched
    .perform (.ack seq)

/-- A message is delivered, the cluster service assigns an item, a caller commits
its next statement, or fails. -/
inductive StoreEvent (ι : Type) where
  | deliver (caller : ι) (seq : ℕ)
  | assign (caller : ι) (key : Uuid × Int) (storyId : Uuid) (simhash : Int) (wire : String)
  | advance (caller : ι) (now : Int)
  | abort (caller : ι)

section Machine

variable {ι : Type} [DecidableEq ι]

def assignItem (key : Uuid × Int) (storyId : Uuid) (simhash : Int) (wire : String) :
    Program WriterStmt Unit := do
  let updated ← .perform (.assignItem key storyId simhash wire)
  if updated then return () else .raise

def StoreEvent.toPool (d : Deployment) : StoreEvent ι → Pool.Event ι WriterStmt Int
  | .deliver caller seq => .start caller (d.deliver seq)
  | .assign caller key storyId simhash wire =>
    .start caller (assignItem key storyId simhash wire)
  | .advance caller now => .advance caller now
  | .abort caller => .abort caller

def storeStep (d : Deployment) (pool : Pool ι WriterStmt WriterDb) (event : StoreEvent ι) :
    Pool ι WriterStmt WriterDb :=
  pool.step writerExec (event.toPool d)

/-- The key a statement assigns. -/
def assignedKey : Program WriterStmt Unit → Option (Uuid × Int)
  | .call (.assignItem key _ _ _) _ => some key
  | _ => none

/-- The key the statement of an event assigns. -/
def StoreEvent.assigns (pool : Pool ι WriterStmt WriterDb) : StoreEvent ι → Option (Uuid × Int)
  | .advance caller _ => assignedKey (pool.running caller)
  | _ => none

end Machine

/-- Messages of one key are the same. -/
def Consistent (d : Deployment) : Prop :=
  ∀ seq seq' enriched enriched', d.item seq = some enriched → d.item seq' = some enriched' →
    enriched.item.key = enriched'.item.key → enriched = enriched'

/-- The columns of a row that the writer sets. -/
def StoredRow.writerColumns (row : StoredRow) : Item × Option Embedding × Bool :=
  (row.item, row.embedding, row.exploration)

def columnsOf (enriched : EnrichedItem) : Item × Option Embedding × Bool :=
  (enriched.item, some enriched.embedding, enriched.exploration)

/-- The table has exactly one row for the message, and it holds the message. -/
def HasOwnRow (db : WriterDb) (enriched : EnrichedItem) : Prop :=
  ∃ row, db.items.rows.filter (fun row => row.key = enriched.item.key) = [row] ∧
    row.writerColumns = columnsOf enriched

/-- Only the cluster service's update of a row changes it. -/
def KeepsRows {ι : Type} [DecidableEq ι] (d : Deployment) (pool : Pool ι WriterStmt WriterDb)
    (event : StoreEvent ι) : Prop :=
  ∀ row ∈ pool.shared.items.rows, event.assigns pool ≠ some row.key →
    row ∈ (storeStep d pool event).shared.items.rows

def AllAcked (d : Deployment) (db : WriterDb) : Prop :=
  ∀ seq enriched, d.item seq = some enriched → seq ∈ db.acked

/-- What all statements maintain: one row for a key, out of a message, and a row for
every acked message. -/
structure Table (d : Deployment) (db : WriterDb) : Prop where
  distinct : (db.items.rows.map fun row => row.key).Nodup
  origin : ∀ row ∈ db.items.rows, ∃ seq enriched, d.item seq = some enriched ∧
    row.writerColumns = columnsOf enriched
  acked : ∀ seq ∈ db.acked, ∀ enriched ∈ d.item seq, ∃ row ∈ db.items.rows,
    row.key = enriched.item.key

/-- No key is lost. -/
def Grows (before after : WriterDb) : Prop :=
  ∀ row ∈ before.items.rows, ∃ kept ∈ after.items.rows, kept.key = row.key

def tableRely (d : Deployment) : Rely writerExec where
  invariant := Table d
  grows := Grows
  refl _ row member := ⟨row, member, rfl⟩
  trans first second row member := by
    obtain ⟨kept, between, same⟩ := first row member
    obtain ⟨last, after, equal⟩ := second kept between
    exact ⟨last, after, equal.trans same⟩

section Statements

variable {d : Deployment} {db : WriterDb}

theorem Table.ensure (table : Table d db) (day : Int) : Table d (ensureItemsPartition db day) := by
  refine ⟨?_, ?_, ?_⟩
  · rw [rows_ensureItemsPartition]
    exact table.distinct
  · rw [rows_ensureItemsPartition]
    exact table.origin
  · rw [rows_ensureItemsPartition, acked_ensureItemsPartition]
    exact table.acked

/-- An insert of a message keeps the table and all rows; if it was placed, the
message has a row. -/
theorem Table.insert (table : Table d db) (now : Int) {seq : ℕ} {enriched : EnrichedItem}
    (sent : d.item seq = some enriched) :
    Table d (insertRow now db enriched).2 ∧
      db.items.rows ⊆ (insertRow now db enriched).2.items.rows ∧
      ((insertRow now db enriched).1 = true →
        ∃ row ∈ (insertRow now db enriched).2.items.rows, row.key = enriched.item.key) := by
  rcases insertRow_cases now db enriched with same | ⟨same, stored⟩ | ⟨fresh, added⟩
  · rw [same]
    exact ⟨table, List.Subset.refl _, nofun⟩
  · rw [same]
    exact ⟨table, List.Subset.refl _, fun _ => stored⟩
  · rw [added]
    refine ⟨⟨?_, ?_, ?_⟩, List.subset_append_left _ _, fun _ => ⟨rowOf now enriched, by simp, rfl⟩⟩
    · rw [List.map_append, List.nodup_append]
      refine ⟨table.distinct, List.nodup_singleton _, ?_⟩
      intro key old other new same
      obtain ⟨row, member, rfl⟩ := List.mem_map.mp old
      rw [List.map_singleton, List.mem_singleton] at new
      exact fresh row member (same.trans new)
    · intro row member
      rcases List.mem_append.mp member with old | new
      · exact table.origin row old
      · rw [List.mem_singleton.mp new]
        exact ⟨seq, enriched, sent, rfl⟩
    · intro other acked message item
      obtain ⟨row, member, key⟩ := table.acked other acked message item
      exact ⟨row, List.mem_append_left _ member, key⟩

theorem Table.ack (table : Table d db) {seq : ℕ} {enriched : EnrichedItem}
    (sent : d.item seq = some enriched) (stored : ∃ row ∈ db.items.rows, row.key = enriched.item.key) :
    Table d { db with acked := Insert.insert seq db.acked } := by
  refine ⟨table.distinct, table.origin, ?_⟩
  intro other acked message item
  rcases Finset.mem_insert.mp acked with rfl | old
  · cases sent.symm.trans item
    exact stored
  · exact table.acked other old message item

theorem Table.assign (table : Table d db) (key : Uuid × Int) (storyId : Uuid) (simhash : Int)
    (wire : String) : Table d (assignRows db key storyId simhash wire) := by
  have columns (row : StoredRow) :
      (assignRow key storyId simhash wire row).writerColumns = row.writerColumns := by
    rw [assignRow]
    split <;> rfl
  refine ⟨?_, ?_, ?_⟩
  · simpa [assignRows, Function.comp_def] using table.distinct
  · intro row member
    obtain ⟨old, stored, rfl⟩ := List.mem_map.mp member
    rw [columns]
    exact table.origin old stored
  · intro seq acked enriched item
    obtain ⟨row, stored, same⟩ := table.acked seq acked enriched item
    exact ⟨_, List.mem_map_of_mem stored, by simpa using same⟩

theorem grows_of_subset {before after : WriterDb}
    (subset : before.items.rows ⊆ after.items.rows) : Grows before after :=
  fun row member => ⟨row, subset member, rfl⟩

theorem grows_assign (key : Uuid × Int) (storyId : Uuid) (simhash : Int) (wire : String) :
    Grows db (assignRows db key storyId simhash wire) :=
  fun row member => ⟨_, List.mem_map_of_mem member, by simp⟩

/-- The ack comes after a placed insert. -/
private theorem safe_ack {seq : ℕ} {enriched : EnrichedItem} {placed : Bool}
    (sent : d.item seq = some enriched)
    (stored : placed = true → ∃ row ∈ db.items.rows, row.key = enriched.item.key) :
    (tableRely d).Safe ((if placed then pure () else .raise) >>= fun _ : Unit =>
      .perform (.ack seq)) db := by
  cases placed with
  | false => trivial
  | true =>
    intro later grown table now
    obtain ⟨row, member, key⟩ := stored rfl
    obtain ⟨kept, present, same⟩ := grown row member
    exact ⟨table.ack sent ⟨kept, present, same.trans key⟩, (tableRely d).refl _, trivial⟩

private theorem safe_end {updated : Bool} :
    (tableRely d).Safe (if updated then pure () else .raise) db := by
  cases updated <;> trivial

theorem safe_deliver (seq : ℕ) : (tableRely d).Safe (d.deliver seq) db := by
  rw [Deployment.deliver]
  cases sent : d.item seq with
  | none => trivial
  | some enriched =>
    intro before _ table now
    refine ⟨table.ensure _, grows_of_subset (by simp [writerExec]), ?_⟩
    intro later _ table now
    obtain ⟨kept, subset, stored⟩ := table.insert now sent
    exact ⟨kept, grows_of_subset subset, safe_ack sent stored⟩

theorem safe_assign (key : Uuid × Int) (storyId : Uuid) (simhash : Int) (wire : String) :
    (tableRely d).Safe (assignItem key storyId simhash wire) db := by
  intro before _ table now
  exact ⟨table.assign key storyId simhash wire, grows_assign key storyId simhash wire, safe_end⟩

end Statements

section Run

variable {ι : Type} [DecidableEq ι] {d : Deployment} {pool : Pool ι WriterStmt WriterDb}

theorem sound_step (sound : (tableRely d).Sound pool) (event : StoreEvent ι) :
    (tableRely d).Sound (storeStep d pool event) := by
  refine (sound.step fun caller program starts => ?_).1
  cases event with
  | deliver other seq =>
    cases starts
    exact safe_deliver seq
  | assign other key storyId simhash wire =>
    cases starts
    exact safe_assign key storyId simhash wire
  | advance other now => cases starts
  | abort other => cases starts

/-- A statement other than the update of the cluster service changes no row. -/
theorem rows_subset {β : Type} (now : Int) (stmt : WriterStmt β)
    (next : β → Program WriterStmt Unit) (db : WriterDb) {row : StoredRow}
    (member : row ∈ db.items.rows) (other : assignedKey (.call stmt next) ≠ some row.key) :
    row ∈ (writerExec now β stmt db).2.items.rows := by
  cases stmt with
  | ensureItemsPartition day => simpa [writerExec] using member
  | insert enriched =>
    rcases insertRow_cases now db enriched with same | ⟨same, _⟩ | ⟨_, added⟩
    · simpa [writerExec, same] using member
    · simpa [writerExec, same] using member
    · simp [writerExec, added, member]
  | ack seq => exact member
  | assignItem key storyId simhash wire =>
    have different : row.key ≠ key := fun same => other (by rw [same]; rfl)
    refine List.mem_map.mpr ⟨row, member, ?_⟩
    rw [assignRow, if_neg different]

theorem keepsRows (pool : Pool ι WriterStmt WriterDb) (event : StoreEvent ι) :
    KeepsRows d pool event := by
  intro row member other
  cases event with
  | deliver caller seq => exact member
  | assign caller key storyId simhash wire => exact member
  | abort caller => exact member
  | advance caller now =>
    change row ∈ (pool.advance (writerExec now) caller).shared.items.rows
    rw [Pool.advance]
    split
    · rename_i β stmt next current
      refine rows_subset now stmt next pool.shared member ?_
      rwa [StoreEvent.assigns, current] at other
    · exact member

theorem filter_key_eq {rows : List StoredRow}
    (distinct : (rows.map fun row => row.key).Nodup) {row : StoredRow} (member : row ∈ rows)
    {key : Uuid × Int} (same : row.key = key) : rows.filter (fun row => row.key = key) = [row] := by
  subst same
  induction rows with
  | nil => cases member
  | cons head tail hypothesis =>
    rw [List.map_cons, List.nodup_cons] at distinct
    obtain ⟨fresh, distinct⟩ := distinct
    rcases List.mem_cons.mp member with rfl | later
    · have none : tail.filter (fun other => other.key = row.key) = [] := by
        refine List.filter_eq_nil_iff.mpr fun other member same => fresh ?_
        rw [← of_decide_eq_true same]
        exact List.mem_map_of_mem member
      simp [none]
    · have different : head.key ≠ row.key := by
        intro same
        rw [same] at fresh
        exact fresh (List.mem_map_of_mem later)
      simpa [different] using hypothesis distinct later

/-- Every acked message has exactly one row, and the row holds it. -/
theorem Table.ownRow (consistent : Consistent d) {db : WriterDb} (table : Table d db) {seq : ℕ}
    (acked : seq ∈ db.acked) {enriched : EnrichedItem} (sent : d.item seq = some enriched) :
    HasOwnRow db enriched := by
  obtain ⟨row, member, key⟩ := table.acked seq acked enriched sent
  obtain ⟨origin, message, item, columns⟩ := table.origin row member
  refine ⟨row, filter_key_eq table.distinct member key, ?_⟩
  have same : message.item.key = enriched.item.key := by
    rw [← key]
    exact congrArg (fun columns => Item.key columns.1) columns.symm
  rw [columns, consistent origin seq message enriched item sent same]

/-- The writer columns of the table, once all messages are acked. -/
theorem Table.mem_columns (consistent : Consistent d) {db : WriterDb} (table : Table d db)
    (all : AllAcked d db) {columns : Item × Option Embedding × Bool} :
    columns ∈ db.items.rows.map StoredRow.writerColumns ↔
      ∃ seq enriched, d.item seq = some enriched ∧ columnsOf enriched = columns := by
  constructor
  · intro member
    obtain ⟨row, stored, rfl⟩ := List.mem_map.mp member
    obtain ⟨seq, enriched, sent, same⟩ := table.origin row stored
    exact ⟨seq, enriched, sent, same.symm⟩
  · rintro ⟨seq, enriched, sent, rfl⟩
    obtain ⟨row, own, same⟩ := table.ownRow consistent (all seq enriched sent) sent
    have member : row ∈ db.items.rows.filter fun row => row.key = enriched.item.key := by
      rw [own]
      exact List.mem_singleton_self row
    exact List.mem_map.mpr ⟨row, List.mem_of_mem_filter member, same⟩

theorem Table.nodup_columns {db : WriterDb} (table : Table d db) :
    (db.items.rows.map StoredRow.writerColumns).Nodup := by
  refine List.Nodup.of_map (fun columns => Item.key columns.1) ?_
  rw [List.map_map]
  exact table.distinct

/-- At every moment of a run each acked message has exactly one row, which holds
it, and only the cluster service changes a stored row; and two runs that acked
all messages leave the same writer columns. -/
theorem storing_exactly_once (d : Deployment) (consistent : Consistent d)
    (events : List (StoreEvent ι)) :
    Always (storeStep d) (fun pool => ∀ seq ∈ pool.shared.acked, ∀ enriched ∈ d.item seq,
        HasOwnRow pool.shared enriched) (Pool.idle {}) events ∧
      Along (storeStep d) (KeepsRows d) (Pool.idle {}) events ∧
      ∀ schedule : List (StoreEvent ι),
        AllAcked d (run (storeStep d) (Pool.idle {}) events).shared →
        AllAcked d (run (storeStep d) (Pool.idle {}) schedule).shared →
        ((run (storeStep d) (Pool.idle {}) events).shared.items.rows.map
          StoredRow.writerColumns).Perm
          ((run (storeStep d) (Pool.idle {}) schedule).shared.items.rows.map
            StoredRow.writerColumns) := by
  have sound (events : List (StoreEvent ι)) : (tableRely d).Sound
      (run (storeStep d) (Pool.idle {}) events) := by
    have every : Along (storeStep d) (fun _ _ => True) (Pool.idle {} : Pool ι WriterStmt WriterDb)
        events := along_of_forall fun _ _ => trivial
    refine every.invariant (tableRely d).Sound ?_ fun pool event before _ => sound_step before event
    exact Rely.sound_idle ⟨List.nodup_nil, by simp, by simp⟩
  refine ⟨?_, along_of_forall keepsRows, ?_⟩
  · intro before _ seq acked enriched sent
    exact (sound before).invariant.ownRow consistent acked sent
  · intro schedule all all'
    rw [List.perm_ext_iff_of_nodup (sound events).invariant.nodup_columns
      (sound schedule).invariant.nodup_columns]
    intro columns
    rw [(sound events).invariant.mem_columns consistent all,
      (sound schedule).invariant.mem_columns consistent all']

end Run

/-- A stream of one report. -/
def quakeStream : Deployment where
  stream seq := ⟨"enriched", 2048, if seq = 0 then some (observedOn 0) else none⟩

/-- The report is delivered twice, with the update of the cluster service between
the row and the ack of the first delivery. -/
def twiceDelivered : List (StoreEvent ℕ) :=
  [.deliver 0 0, .advance 0 5, .advance 0 5, .assign 1 (observedOn 0).item.key 3 9 "",
    .advance 1 6, .deliver 2 0, .advance 2 7, .advance 2 7, .advance 2 7]

theorem twiceDelivered_stored :
    HasOwnRow (run (storeStep quakeStream) (Pool.idle {}) twiceDelivered).shared (observedOn 0) := by
  have consistent : Consistent quakeStream := by
    have only (seq : ℕ) (enriched : EnrichedItem) (sent : quakeStream.item seq = some enriched) :
        enriched = observedOn 0 := by
      by_cases first : seq = 0 <;>
        simp_all [Deployment.item, quakeStream, accepted]
    exact fun _ _ _ _ sent other _ => (only _ _ sent).trans (only _ _ other).symm
  refine (storing_exactly_once quakeStream consistent twiceDelivered).1 twiceDelivered
    (List.prefix_refl _) 0 ?_ _ rfl
  decide +kernel

end NewsAggregator.Writer
