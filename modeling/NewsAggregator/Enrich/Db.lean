import NewsAggregator.Foundation.Program
import NewsAggregator.Schema.Tally

/-! The tally tables and the writer's handler of one flush: two statements, each
of which commits on its own. -/

namespace NewsAggregator.Enrich

open Foundation

/-- A row of `entity_tallies`; its key is all but the last column. -/
structure TallyRow where
  entity : String
  bucketTs : Int
  replica : String
  mentions : ℕ
  deriving DecidableEq

def TallyRow.key (row : TallyRow) : String × Int × String := (row.entity, row.bucketTs, row.replica)

/-- The health beat kept in `system_state`. -/
structure Health (K : Type) where
  samplingActive : Bool
  theta : K
  flushedAt : Int

structure TallyStore (K : Type) where
  entityTallies : List TallyRow := []
  systemState : List (String × Health K) := []

/-- The first row of a key stays. -/
def insertTally (rows : List TallyRow) (row : TallyRow) : List TallyRow :=
  if rows.any fun old => old.key = row.key then rows else rows ++ [row]

variable {K : Type} [Semiring K] [LinearOrder K]

def tallyRows (flush : TallyFlush K) : List TallyRow :=
  flush.counts.map fun entry => ⟨entry.1, flush.bucketTs, flush.replica, entry.2⟩

/-- `executemany` is atomic. -/
def insertTallies (store : TallyStore K) (flush : TallyFlush K) : TallyStore K :=
  if flush.counts.isEmpty then store
  else { store with entityTallies := (tallyRows flush).foldl insertTally store.entityTallies }

theorem entityTallies_insertTallies (store : TallyStore K) (flush : TallyFlush K) :
    (insertTallies store flush).entityTallies =
      (tallyRows flush).foldl insertTally store.entityTallies := by
  rw [insertTallies, tallyRows]
  split
  · rename_i empty
    rw [List.isEmpty_iff.mp empty]
    rfl
  · rfl

omit [Semiring K] [LinearOrder K] in
def upsertSystemState (store : TallyStore K) (key : String) (value : Health K) : TallyStore K :=
  { store with systemState := (key, value) :: store.systemState.filter fun entry => entry.1 ≠ key }

inductive TallyStmt (K : Type) [Semiring K] [LinearOrder K] : Type → Type where
  | insertTallies (flush : TallyFlush K) : TallyStmt K Unit
  | upsertSystemState (key : String) (value : Health K) : TallyStmt K Unit

def tallyExec : Semantics (TallyStmt K) (TallyStore K)
  | _, .insertTallies flush, store => ((), insertTallies store flush)
  | _, .upsertSystemState key value, store => ((), upsertSystemState store key value)

/-- `handle_tally`. -/
def handleTally (flush : TallyFlush K) : Program (TallyStmt K) Unit := do
  .perform (.insertTallies flush)
  .perform (.upsertSystemState ("enrich:" ++ flush.replica)
    ⟨flush.samplingActive, flush.theta, flush.flushedAt⟩)

/-- An attempt at a flush inserts its rows, or fails before it does. -/
theorem handleTally_yields {cut : Option ℕ} {flush : TallyFlush K} {store final : TallyStore K}
    {result : Option Unit}
    (yields : Program.Yields tallyExec cut 0 (handleTally flush) store result final) :
    (final = store ∧ result = none) ∨
      final.entityTallies = (insertTallies store flush).entityTallies := by
  unfold handleTally at yields
  rw [Program.perform_bind, Program.yields_call] at yields
  rcases yields with ⟨_, rfl, rfl⟩ | ⟨_, later⟩
  · exact .inl ⟨rfl, rfl⟩
  · refine .inr ?_
    unfold Program.perform at later
    rcases Program.yields_call.mp later with ⟨_, rfl, _⟩ | ⟨_, ended⟩
    · rfl
    · rw [(Program.yields_done.mp ended).1]
      rfl

section Insert

theorem mem_insertTally {rows : List TallyRow} {row other : TallyRow} :
    other ∈ insertTally rows row ↔
      other ∈ rows ∨ other = row ∧ ∀ old ∈ rows, old.key ≠ row.key := by
  rw [insertTally]
  split
  · rename_i taken
    obtain ⟨old, member, same⟩ := List.any_eq_true.mp taken
    exact ⟨.inl, fun either => either.elim id fun fresh =>
      absurd (of_decide_eq_true same) (fresh.2 old member)⟩
  · rename_i free
    simp only [List.any_eq_true, decide_eq_true_eq, not_exists, not_and] at free
    rw [List.mem_append, List.mem_singleton]
    exact or_congr_right ⟨fun same => ⟨same, free⟩, And.left⟩

/-- What a batch of rows leaves in the table: a key once, with a value of its own
or of the batch, and every key of the batch. -/
theorem foldl_insertTally (batch : List TallyRow) {rows : List TallyRow}
    (distinct : (rows.map TallyRow.key).Nodup) :
    ((batch.foldl insertTally rows).map TallyRow.key).Nodup ∧
      rows ⊆ batch.foldl insertTally rows ∧
      (∀ row ∈ batch.foldl insertTally rows, row ∈ rows ∨ row ∈ batch) ∧
      ∀ row ∈ batch, ∃ stored ∈ batch.foldl insertTally rows, stored.key = row.key := by
  induction batch generalizing rows with
  | nil => exact ⟨distinct, List.Subset.refl _, fun row => .inl, by simp⟩
  | cons row rest ih =>
    have next : ((insertTally rows row).map TallyRow.key).Nodup := by
      rw [insertTally]
      split
      · exact distinct
      · rename_i free
        simp only [List.any_eq_true, decide_eq_true_eq, not_exists, not_and] at free
        rw [List.map_append, List.nodup_append]
        refine ⟨distinct, List.nodup_singleton _, fun key old other new same => ?_⟩
        obtain ⟨stored, member, rfl⟩ := List.mem_map.mp old
        rw [List.map_singleton, List.mem_singleton] at new
        exact free stored member (same.trans new)
    obtain ⟨nodup, kept, origin, covers⟩ := ih next
    rw [List.foldl_cons]
    refine ⟨nodup, fun old member => kept (mem_insertTally.mpr (.inl member)), ?_, ?_⟩
    · intro stored member
      rcases origin stored member with old | new
      · rcases mem_insertTally.mp old with old | ⟨rfl, _⟩
        · exact .inl old
        · exact .inr List.mem_cons_self
      · exact .inr (List.mem_cons_of_mem row new)
    · intro other member
      rcases List.mem_cons.mp member with rfl | later
      · by_cases taken : ∃ old ∈ rows, old.key = other.key
        · obtain ⟨old, present, same⟩ := taken
          exact ⟨old, kept (mem_insertTally.mpr (.inl present)), same⟩
        · refine ⟨other, kept (mem_insertTally.mpr (.inr ⟨rfl, ?_⟩)), rfl⟩
          exact fun old present same => taken ⟨old, present, same⟩
      · exact covers other later

end Insert

end NewsAggregator.Enrich
