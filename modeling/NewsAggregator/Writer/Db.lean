import NewsAggregator.Cluster.Db
import NewsAggregator.Foundation.Rely
import NewsAggregator.Schema.Partitions

/-! The writer's side of the `items` table: its partitions, the two statements of
`insert_item`, and next to them the update of the cluster service. -/

namespace NewsAggregator.Writer

open Foundation

/-- A row with the time of its insert, which the table does not keep. -/
structure StoredRow extends ItemRow where
  insertedAt : Int

/-- The table, the days the writer process has ensured (`_ensured`), and the
messages acked to the stream. -/
structure WriterDb where
  items : PartitionedTable StoredRow := {}
  ensured : Finset Int := ∅
  acked : Finset ℕ := ∅

inductive WriterStmt : Type → Type where
  | ensureItemsPartition (day : Int) : WriterStmt Unit
  | insert (enriched : EnrichedItem) : WriterStmt Bool
  | ack (seq : ℕ) : WriterStmt Unit
  | assignItem (key : Uuid × Int) (storyId : Uuid) (simhash : Int) (wire : String) :
      WriterStmt Bool

def StoredRow.ts (row : StoredRow) : Int := row.item.tsObserved.instant

/-- The row `_INSERT` writes. -/
def rowOf (now : Int) (enriched : EnrichedItem) : StoredRow where
  item := enriched.item
  embedding := some enriched.embedding
  exploration := enriched.exploration
  insertedAt := now

/-- `_ensure_partition`. -/
def ensureItemsPartition (db : WriterDb) (day : Int) : WriterDb :=
  if day ∈ db.ensured then db
  else { db with items := db.items.ensure day, ensured := insert day db.ensured }

/-- `_INSERT`: `false` where the server finds no partition; the first row of a key stays. -/
def insertRow (now : Int) (db : WriterDb) (enriched : EnrichedItem) : Bool × WriterDb :=
  if !db.items.places enriched.item.tsObserved.instant then (false, db)
  else if db.items.rows.any fun row => row.key = enriched.item.key then (true, db)
  else
    (true, { db with items := { db.items with rows := db.items.rows ++ [rowOf now enriched] } })

/-- `_ASSIGN`, on one row. -/
def assignRow (key : Uuid × Int) (storyId : Uuid) (simhash : Int) (wire : String)
    (row : StoredRow) : StoredRow :=
  if row.key = key then
    { row with storyId := some storyId, simhash := some simhash, wireRef := wire }
  else row

def assignRows (db : WriterDb) (key : Uuid × Int) (storyId : Uuid) (simhash : Int)
    (wire : String) : WriterDb :=
  { db with items := { db.items with
      rows := db.items.rows.map (assignRow key storyId simhash wire) } }

/-- What a statement answers and writes at a time of the server. -/
def writerExec (now : Int) : Semantics WriterStmt WriterDb
  | _, .ensureItemsPartition day, db => ((), ensureItemsPartition db day)
  | _, .insert enriched, db => insertRow now db enriched
  | _, .ack seq, db => ((), { db with acked := insert seq db.acked })
  | _, .assignItem key storyId simhash wire, db =>
    (db.items.rows.any fun row => row.key = key, assignRows db key storyId simhash wire)

/-- `insert_item`, which is all that `Writer.handle` does to the database. -/
def insertItem (enriched : EnrichedItem) : Program WriterStmt Unit := do
  .perform (.ensureItemsPartition enriched.item.tsObserved.date)
  let placed ← .perform (.insert enriched)
  if placed then return () else .raise

section Rows

variable {now : Int} {db : WriterDb} {enriched : EnrichedItem}

@[simp] theorem rows_ensureItemsPartition (day : Int) :
    (ensureItemsPartition db day).items.rows = db.items.rows := by
  rw [ensureItemsPartition]
  split <;> rfl

@[simp] theorem acked_ensureItemsPartition (day : Int) :
    (ensureItemsPartition db day).acked = db.acked := by
  rw [ensureItemsPartition]
  split <;> rfl

/-- An insert adds the row of a new key, or nothing. -/
theorem insertRow_cases (now : Int) (db : WriterDb) (enriched : EnrichedItem) :
    (insertRow now db enriched = (false, db)) ∨
      (insertRow now db enriched = (true, db) ∧
        ∃ row ∈ db.items.rows, row.key = enriched.item.key) ∨
      ((∀ row ∈ db.items.rows, row.key ≠ enriched.item.key) ∧
        insertRow now db enriched = (true,
          { db with items := { db.items with rows := db.items.rows ++ [rowOf now enriched] } })) := by
  rw [insertRow]
  split
  · exact .inl rfl
  · split
    · rename_i stored
      refine .inr (.inl ⟨rfl, ?_⟩)
      simpa using stored
    · rename_i absent
      refine .inr (.inr ⟨?_, rfl⟩)
      simpa using absent

@[simp] theorem assignRow_item (key : Uuid × Int) (storyId : Uuid) (simhash : Int) (wire : String)
    (row : StoredRow) : (assignRow key storyId simhash wire row).item = row.item := by
  rw [assignRow]
  split <;> rfl

@[simp] theorem assignRow_key (key : Uuid × Int) (storyId : Uuid) (simhash : Int) (wire : String)
    (row : StoredRow) : (assignRow key storyId simhash wire row).key = row.key := by
  simp [ItemRow.key]

/-- The tables of the cluster service see the same rows, where a partition is found. -/
theorem insertRow_refines {store : Store}
    (placed : db.items.places enriched.item.tsObserved.instant)
    (same : store.items = db.items.rows.map StoredRow.toItemRow) :
    (Cluster.insertItem store enriched).items =
      (insertRow now db enriched).2.items.rows.map StoredRow.toItemRow := by
  have seen : (store.items.any fun row => row.key = enriched.item.key) =
      db.items.rows.any fun row => row.key = enriched.item.key := by
    rw [same, List.any_map]
    rfl
  rw [Cluster.insertItem, insertRow, placed, seen]
  cases db.items.rows.any fun row => row.key = enriched.item.key with
  | true => exact same
  | false => simp [same, rowOf]

end Rows

end NewsAggregator.Writer
