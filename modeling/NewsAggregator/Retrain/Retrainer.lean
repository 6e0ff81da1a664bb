import NewsAggregator.Enrich.ModelWatch
import NewsAggregator.Foundation.Informed
import NewsAggregator.Retrain.Labels

/-! The retrain worker, the models bucket and the watchers of the enrich replicas:
any number of cycles and turns whose statements interleave, while other services
change the tables under the labels. -/

namespace NewsAggregator.Retrain

open Classify Enrich Foundation

variable {Bytes S : Type} [LinearOrder S]

/-- The settings of the environment; `fixed3` is the format `.3f`. -/
structure Config (S : Type) where
  fl : Rounding ℚ := Rounding.exact
  fixed3 : ℚ → String
  floors : Floors := {}
  evalFrac : ℚ := 1 / 5
  threshold : S
  maxRows : ℕ := 5000

/-- `train_model`, and the scores of an ONNX graph; `none` where the graph does not
load or run. -/
structure Models (Bytes S : Type) where
  train : List String → List ℤ → Bytes
  predictProba : Bytes → List String → Option (List S)

def evaluate (cfg : Config S) (models : Models Bytes S) (model : Bytes) (rows : List LabeledRow) :
    Option (Metrics ℚ) := do
  let texts := rows.map LabeledRow.text
  let scores ← if texts.isEmpty then some [] else models.predictProba model texts
  f1Metrics cfg.fl cfg.threshold scores (rows.map LabeledRow.label)

/-- The health beat of the worker. -/
structure RetrainState where
  lastRun : Int
  labeledRows : ℕ
  neg : ℕ
  pos : ℕ
  promoted : Bool
  reason : String
  candidateF1 : Option ℚ
  currentF1 : Option ℚ
  version : Option String
  cycles : ℕ

/-- The statements outside the bucket. -/
inductive OwnStmt (Bytes : Type) : Type → Type where
  | fetchLabels (limit : ℕ) : OwnStmt Bytes (List LabeledRow)
  | upsertSystemState (value : RetrainState) : OwnStmt Bytes Unit
  /-- An enrich replica looks at its own loop variables. -/
  | watcher (replica : ℕ) : OwnStmt Bytes (Watcher Bytes)
  | install (replica : ℕ) (watcher : Watcher Bytes) : OwnStmt Bytes Unit
  /-- A transaction of another service. -/
  | change (update : LabelTables → LabelTables) : OwnStmt Bytes Unit

abbrev RetrainStmt (Bytes β : Type) : Type := KvStmt Bytes β ⊕ OwnStmt Bytes β

def own {β : Type} (stmt : OwnStmt Bytes β) : Program (RetrainStmt Bytes) β := .perform (.inr stmt)

def inBucket {β : Type} (program : Program (KvStmt Bytes) β) : Program (RetrainStmt Bytes) β :=
  program.lift fun _ => .inl

/-- What a cycle found out before its health beat. -/
structure Outcome where
  reason : String
  promoted : Bool := false
  candidateF1 : Option ℚ := none
  currentF1 : Option ℚ := none
  version : Option String := none

def metricsEntries (metrics : Metrics ℚ) : List (String × ℚ) :=
  [("precision", metrics.precision), ("recall", metrics.recallRate), ("f1", metrics.f1),
    ("n", metrics.n)]

/-- The end of the part after the floors are met: the gate, and the publish. -/
def promote (cfg : Config S) (sha256 : Bytes → String) (now : Int) (rows : List LabeledRow)
    (candidate : Bytes) (candMetrics : Metrics ℚ) (curF1 : Option ℚ) :
    Program (RetrainStmt Bytes) Outcome :=
  let (promote, reason) := shouldPromote cfg.floors cfg.fixed3 candMetrics.f1 curF1 rows.length
    (classCounts rows)
  if promote then do
    let version := sha256 candidate
    inBucket (ModelStore.publish candidate
      ⟨version, metricsEntries candMetrics, rows.length, now⟩)
    .done ⟨reason, true, some candMetrics.f1, curF1, some version⟩
  else .done ⟨reason, false, some candMetrics.f1, curF1, none⟩

/-- The part of `cycle` after the floors are met. -/
def consider (cfg : Config S) (models : Models Bytes S) (sha256 : Bytes → String) (now : Int)
    (rows : List LabeledRow) : Program (RetrainStmt Bytes) Outcome :=
  let (trainRows, evalRows) := timeSplit cfg.fl cfg.evalFrac rows
  let candidate := models.train (trainRows.map LabeledRow.text) (trainRows.map LabeledRow.label)
  match evaluate cfg models candidate evalRows with
  | none => .raise
  | some candMetrics => do
    match ← inBucket ModelStore.getModel with
    | none => promote cfg sha256 now rows candidate candMetrics none
    | some current =>
      match evaluate cfg models current evalRows with
      | none => .raise
      | some metrics => promote cfg sha256 now rows candidate candMetrics (some metrics.f1)

/-- `Retrainer.cycle`, after `cycles` of them. -/
def cycle (cfg : Config S) (models : Models Bytes S) (sha256 : Bytes → String) (cycles : ℕ)
    (now : Int) : Program (RetrainStmt Bytes) Unit := do
  let rows ← own (.fetchLabels cfg.maxRows)
  let counts := classCounts rows
  let (ok, reason) := meetsFloors cfg.floors rows.length counts
  let outcome ← if ok then consider cfg models sha256 now rows else .done { reason }
  own (.upsertSystemState
    ⟨now, rows.length, counts.count 0, counts.count 1, outcome.promoted, outcome.reason,
      outcome.candidateF1, outcome.currentF1, outcome.version, cycles + 1⟩)

/-- A turn of the watcher of a replica. -/
def watchTurn (sha256 : Bytes → String) (loads : Bytes → Bool) (replica : ℕ) :
    Program (RetrainStmt Bytes) Unit := do
  let watcher ← own (.watcher replica)
  let after ← inBucket (watchTick sha256 loads watcher)
  own (.install replica after)

/-- What a caller has read since its program began: the labelled rows, the artifact in the
bucket after them, and every artifact it came across. -/
structure Seen (Bytes : Type) where
  rows : Option (List LabeledRow) := none
  current : Option (Option Bytes) := none
  artifacts : List Bytes := []

/-- An artifact put into the bucket, with what the caller that put it had read. -/
structure Put (Bytes : Type) extends Seen Bytes where
  model : Bytes

/-- What the services share. The last two fields are a history no program reads: the
tables the labels were fetched from, and the artifacts put into the bucket. -/
structure World (Bytes : Type) where
  tables : LabelTables := {}
  bucket : Bucket Bytes := {}
  systemState : Option RetrainState := none
  watchers : ℕ → Watcher Bytes := fun _ => {}
  fetched : List LabelTables := []
  put : List (Put Bytes) := []

/-- The artifact a statement puts. -/
def artifact : ∀ β, KvStmt Bytes β → List Bytes
  | _, .putModel value => [value]
  | _, _ => []

/-- The statements of a caller that has read so much. -/
def retrainExec (seen : Seen Bytes) : Semantics (RetrainStmt Bytes) (World Bytes)
  | _, .inr (.fetchLabels limit), world =>
    (world.tables.fetchLabels limit, { world with fetched := world.fetched ++ [world.tables] })
  | _, .inl stmt, world =>
    ((kvExec _ stmt world.bucket).1,
      { world with
        bucket := (kvExec _ stmt world.bucket).2
        put := world.put ++ (artifact _ stmt).map fun model => ⟨seen, model⟩ })
  | _, .inr (.upsertSystemState value), world => ((), { world with systemState := some value })
  | _, .inr (.watcher replica), world => (world.watchers replica, world)
  | _, .inr (.install replica watcher), world =>
    ((), { world with watchers := Function.update world.watchers replica watcher })
  | _, .inr (.change update), world => ((), { world with tables := update world.tables })

/-- The gate a model has passed, on these labels and against what the bucket held: both
classes are there, it was trained on none of the newest rows, and on those it does not
fall behind. -/
structure Gated (cfg : Config S) (models : Models Bytes S) (rows : List LabeledRow)
    (current : Option Bytes) (model : Bytes) : Prop where
  enough : cfg.floors.minRows ≤ rows.length
  classes : ∀ cls ∈ ([0, 1] : List ℤ), cfg.floors.minPerClass ≤
    rows.countP fun row => row.label = cls
  trained : ∃ train held metrics, SplitInTime rows train held ∧
    model = models.train (train.map LabeledRow.text) (train.map LabeledRow.label) ∧
    evaluate cfg models model held = some metrics ∧
    ∀ old ∈ current, ∃ previous, evaluate cfg models old held = some previous ∧
      previous.f1 ≤ metrics.f1

/-- A caller puts only what has passed the gate on the rows it fetched and against what it
read from the bucket after them, and a replica installs only what its watcher came across. -/
def gate (cfg : Config S) (models : Models Bytes S) :
    Discipline (RetrainStmt Bytes) (Seen Bytes) where
  observe seen
    | _, .inr (.fetchLabels _), rows => { seen with rows := some rows, current := none }
    | _, .inl .getModel, got => { seen with
        current := some (got.map Prod.fst)
        artifacts := seen.artifacts ++ (got.map Prod.fst).toList }
    | _, .inr (.watcher _), watcher =>
      { seen with artifacts := seen.artifacts ++ watcher.classifier.toList }
    | _, _, _ => seen
  allows seen
    | _, .inr (.fetchLabels limit) => limit = cfg.maxRows
    | _, .inl (.putModel model) => ∃ rows current, seen.rows = some rows ∧
      seen.current = some current ∧ Gated cfg models rows current model
    | _, .inr (.install _ watcher) => ∀ model ∈ watcher.classifier, model ∈ seen.artifacts
    | _, _ => True

/-- A cycle, a turn of a watcher or another service's transaction begins, a caller
commits its next statement, or fails. -/
inductive RetrainEvent (ι : Type) where
  | cycle (caller : ι) (cycles : ℕ) (now : Int)
  | watch (caller : ι) (replica : ℕ)
  | change (caller : ι) (update : LabelTables → LabelTables)
  | advance (caller : ι)
  | abort (caller : ι)

/-- The services over what they share, and what each caller has read. -/
abbrev Retraining (ι Bytes : Type) : Type 1 :=
  Informed ι (Seen Bytes) (RetrainStmt Bytes) (World Bytes)

section Machine

variable {ι : Type} [DecidableEq ι] (cfg : Config S) (models : Models Bytes S)
  (sha256 : Bytes → String) (loads : Bytes → Bool)

def RetrainEvent.toPool : RetrainEvent ι → Pool.Event ι (RetrainStmt Bytes) Unit
  | .cycle caller cycles now => .start caller (Retrain.cycle cfg models sha256 cycles now)
  | .watch caller replica => .start caller (watchTurn sha256 loads replica)
  | .change caller update => .start caller (own (.change update))
  | .advance caller => .advance caller ()
  | .abort caller => .abort caller

def retrainStep (pool : Retraining ι Bytes) (event : RetrainEvent ι) : Retraining ι Bytes :=
  pool.step (gate cfg models) retrainExec {} (event.toPool cfg models sha256 loads)

end Machine

/-- What the caller of a put had read was labels of one fetch and then the bucket, whose
artifact was put before, and the model passed the gate on the two. -/
structure Vetted (cfg : Config S) (models : Models Bytes S) (world : World Bytes)
    (put : Put Bytes) : Prop where
  gated : ∃ rows current, put.rows = some rows ∧ put.current = some current ∧
    Gated cfg models rows current put.model
  fetched : ∀ rows ∈ put.rows, ∃ db ∈ world.fetched, rows = db.fetchLabels cfg.maxRows
  current : ∀ current ∈ put.current, ∀ model ∈ current, model ∈ world.put.map Put.model

/-- What a caller has read is of the world. -/
structure Founded (cfg : Config S) (seen : Seen Bytes) (world : World Bytes) : Prop where
  rows : ∀ rows ∈ seen.rows, ∃ db ∈ world.fetched, rows = db.fetchLabels cfg.maxRows
  current : ∀ current ∈ seen.current, ∀ model ∈ current, model ∈ seen.artifacts
  artifacts : ∀ model ∈ seen.artifacts, model ∈ world.put.map Put.model

/-- What all statements maintain. -/
structure Kept (cfg : Config S) (models : Models Bytes S) (world : World Bytes) : Prop where
  put : ∀ put ∈ world.put, Vetted cfg models world put
  bucket : ∀ model rev, world.bucket.classifier = some (model, rev) →
    model ∈ world.put.map Put.model
  watchers : ∀ replica, ∀ model ∈ (world.watchers replica).classifier,
    model ∈ world.put.map Put.model

structure Grown (before after : World Bytes) : Prop where
  fetched : before.fetched ⊆ after.fetched
  put : before.put ⊆ after.put

section History

variable {cfg : Config S} {models : Models Bytes S} {before after : World Bytes}
  {seen : Seen Bytes}

omit [LinearOrder S] in
theorem Grown.model (grown : Grown before after) {model : Bytes}
    (put : model ∈ before.put.map Put.model) : model ∈ after.put.map Put.model := by
  obtain ⟨entry, member, rfl⟩ := List.mem_map.mp put
  exact List.mem_map_of_mem (grown.put member)

theorem Vetted.later {put : Put Bytes} (vetted : Vetted cfg models before put)
    (grown : Grown before after) : Vetted cfg models after put where
  gated := vetted.gated
  fetched rows member := by
    obtain ⟨db, fetched, same⟩ := vetted.fetched rows member
    exact ⟨db, grown.fetched fetched, same⟩
  current current read model member := grown.model (vetted.current current read model member)

omit [LinearOrder S] in
theorem Founded.later (founded : Founded cfg seen before) (grown : Grown before after) :
    Founded cfg seen after where
  rows rows member := by
    obtain ⟨db, fetched, same⟩ := founded.rows rows member
    exact ⟨db, grown.fetched fetched, same⟩
  current := founded.current
  artifacts model member := grown.model (founded.artifacts model member)

omit [LinearOrder S] in
/-- A caller comes across an artifact that was put. -/
theorem Founded.meet (founded : Founded cfg seen before) {found : Option Bytes}
    (put : ∀ model ∈ found, model ∈ before.put.map Put.model) :
    Founded cfg { seen with artifacts := seen.artifacts ++ found.toList } before where
  rows := founded.rows
  current current read model member :=
    List.mem_append_left _ (founded.current current read model member)
  artifacts model member := by
    rcases List.mem_append.mp member with old | new
    · exact founded.artifacts model old
    · exact put model (Option.mem_toList.mp new)

/-- Every statement only adds to the history. -/
theorem grown_exec (seen : Seen Bytes) {β : Type} (stmt : RetrainStmt Bytes β)
    (world : World Bytes) : Grown world (retrainExec seen β stmt world).2 := by
  cases stmt with
  | inl stmt => exact ⟨List.Subset.refl _, List.subset_append_left _ _⟩
  | inr stmt =>
    cases stmt with
    | fetchLabels limit => exact ⟨List.subset_append_left _ _, List.Subset.refl _⟩
    | _ => exact ⟨List.Subset.refl _, List.Subset.refl _⟩

/-- A step that puts and installs nothing keeps what holds. -/
theorem Kept.unchanged (kept : Kept cfg models before) (grown : Grown before after)
    (put : after.put = before.put)
    (bucket : after.bucket.classifier = before.bucket.classifier)
    (watchers : after.watchers = before.watchers) : Kept cfg models after := by
  refine ⟨fun entry member => ?_, fun model rev stored => ?_, fun replica model member => ?_⟩
  · rw [put] at member
    exact (kept.put entry member).later grown
  · rw [bucket] at stored
    exact grown.model (kept.bucket model rev stored)
  · rw [watchers] at member
    exact grown.model (kept.watchers replica model member)

end History

section Statements

variable {cfg : Config S} {models : Models Bytes S} {world : World Bytes} {seen : Seen Bytes}

/-- A put of what passed the gate keeps what holds. -/
theorem Kept.putModel (kept : Kept cfg models world) (founded : Founded cfg seen world)
    {model : Bytes} (passed : ∃ rows current, seen.rows = some rows ∧
      seen.current = some current ∧ Gated cfg models rows current model) :
    Kept cfg models (retrainExec seen Unit (.inl (.putModel model)) world).2 := by
  have grown := grown_exec seen (.inl (.putModel model)) world
  have vetted : Vetted cfg models world ⟨seen, model⟩ :=
    ⟨passed, founded.rows, fun current read old member =>
      founded.artifacts old (founded.current current read old member)⟩
  refine ⟨fun other member => ?_, fun other rev stored => ?_, fun replica other member => ?_⟩
  · rcases List.mem_append.mp member with old | new
    · exact (kept.put other old).later grown
    · rw [List.mem_singleton.mp new]
      exact vetted.later grown
  · cases stored
    exact List.mem_map_of_mem (List.mem_append_right _ (List.mem_singleton_self _))
  · exact grown.model (kept.watchers replica other member)

/-- An installed model is one that was put. -/
theorem Kept.install (kept : Kept cfg models world) (replica : ℕ) {watcher : Watcher Bytes}
    (known : ∀ model ∈ watcher.classifier, model ∈ world.put.map Put.model) :
    Kept cfg models (retrainExec seen Unit (.inr (.install replica watcher)) world).2 := by
  have grown := grown_exec seen (.inr (.install replica watcher)) world
  refine ⟨fun entry member => (kept.put entry member).later grown, kept.bucket, ?_⟩
  intro other model member
  by_cases same : other = replica
  · subst same
    simp only [retrainExec, Function.update_self] at member
    exact known model member
  · simp only [retrainExec, Function.update_of_ne same] at member
    exact kept.watchers other model member

/-- An allowed statement keeps what holds. -/
theorem Kept.stmt (kept : Kept cfg models world) (founded : Founded cfg seen world) {β : Type}
    (stmt : RetrainStmt Bytes β) (allowed : (gate cfg models).allows seen β stmt) :
    Kept cfg models (retrainExec seen β stmt world).2 := by
  have grown := grown_exec seen stmt world
  cases stmt with
  | inl stmt =>
    cases stmt with
    | putModel model => exact kept.putModel founded allowed
    | _ => exact kept.unchanged grown (List.append_nil _) rfl rfl
  | inr stmt =>
    cases stmt with
    | install replica watcher =>
      exact kept.install replica fun model member =>
        founded.artifacts model (allowed model member)
    | _ => exact kept.unchanged grown rfl rfl rfl

/-- What an answer adds to what a caller has read is of the world. -/
theorem Founded.observe (founded : Founded cfg seen world) (kept : Kept cfg models world)
    {β : Type} (stmt : RetrainStmt Bytes β) (allowed : (gate cfg models).allows seen β stmt) :
    Founded cfg ((gate cfg models).observe seen β stmt (retrainExec seen β stmt world).1)
      (retrainExec seen β stmt world).2 := by
  have after := founded.later (grown_exec seen stmt world)
  cases stmt with
  | inl stmt =>
    cases stmt with
    | getModel =>
      have put : ∀ model ∈ world.bucket.classifier.map Prod.fst,
          model ∈ world.put.map Put.model := by
        intro model member
        obtain ⟨⟨bytes, rev⟩, stored, rfl⟩ := Option.map_eq_some_iff.mp member
        exact kept.bucket bytes rev stored
      have met := (founded.meet put).later (grown_exec seen (.inl .getModel) world)
      refine ⟨met.rows, ?_, met.artifacts⟩
      rintro _ ⟨⟩ model member
      exact List.mem_append_right _ (Option.mem_toList.mpr member)
    | _ => exact after
  | inr stmt =>
    cases stmt with
    | fetchLabels limit =>
      have all : limit = cfg.maxRows := allowed
      refine ⟨?_, nofun, after.artifacts⟩
      rintro _ ⟨⟩
      exact ⟨world.tables, List.mem_append_right _ (List.mem_singleton_self _), by rw [← all]; rfl⟩
    | watcher replica => exact founded.meet (kept.watchers replica)
    | _ => exact after

/-- What the services keep between them, and what each caller keeps for itself. -/
def gateUpkeep (cfg : Config S) (models : Models Bytes S) :
    Upkeep (gate cfg models) retrainExec {} where
  invariant := Kept cfg models
  founded := Founded cfg
  unknowing _ := ⟨nofun, nofun, nofun⟩
  stmt stmt _ _ kept founded allowed :=
    ⟨kept.stmt founded stmt allowed, founded.observe kept stmt allowed, fun _ other =>
      other.later (grown_exec _ stmt _)⟩

end Statements

section Callers

variable {cfg : Config S} {models : Models Bytes S} {sha256 : Bytes → String}
  {loads : Bytes → Bool} {seen : Seen Bytes}

/-- A turn of a watcher ends with the classifier it had or one it read. -/
theorem obeys_watchTick {watcher : Watcher Bytes}
    (known : ∀ model ∈ watcher.classifier, model ∈ seen.artifacts) :
    (gate cfg models).Obeys
      (fun seen after => ∀ model ∈ after.classifier, model ∈ seen.artifacts)
      seen (inBucket (watchTick sha256 loads watcher)) := by
  simp only [inBucket, watchTick, ModelStore.modelRevision, ModelStore.getModel,
    ModelStore.getMeta, Program.perform_bind, Program.call_bind, Program.done_bind, Program.lift]
  refine ⟨trivial, fun first => ?_⟩
  have once : ∀ model ∈ watcher.classifier,
      model ∈ seen.artifacts ++ (first.map Prod.fst).toList :=
    fun model member => List.mem_append_left _ (known model member)
  dsimp only
  split
  · exact once
  · split
    · exact once
    · refine ⟨trivial, fun second => ⟨trivial, fun info => ?_⟩⟩
      dsimp only
      split
      · trivial
      · rename_i model read
        split
        · exact fun model member => List.mem_append_left _ (once model member)
        · split
          · intro other installed
            rw [← Option.some.inj installed]
            exact List.mem_append_right _ (Option.mem_toList.mpr read)
          · trivial

theorem obeys_watchTurn {replica : ℕ} :
    (gate cfg models).Obeys (fun _ _ => True) seen (watchTurn sha256 loads replica) := by
  rw [watchTurn, own, Program.perform_bind]
  refine ⟨trivial, fun watcher => Discipline.Obeys.bind ?_⟩
  have known : ∀ model ∈ watcher.classifier,
      model ∈ seen.artifacts ++ watcher.classifier.toList :=
    fun model member => List.mem_append_right _ (Option.mem_toList.mpr member)
  exact (obeys_watchTick known).mono fun _ _ read => ⟨read, fun _ => trivial⟩

/-- Without an incumbent the floors alone decide. -/
theorem shouldPromote_none {floors : Floors} {fixed3 : ℚ → String} {candidateF1 : ℚ} {n : ℕ}
    {counts : Counter ℤ} : (shouldPromote floors fixed3 candidateF1 none n counts).1 =
      (meetsFloors floors n counts).1 := by
  unfold shouldPromote
  obtain ⟨ok, reason⟩ := meetsFloors floors n counts
  cases ok <;> rfl

/-- A candidate is put when it passes the gate. -/
theorem obeys_promote {now : Int} {rows : List LabeledRow} {candidate : Bytes}
    {metrics : Metrics ℚ} {curF1 : Option ℚ}
    (gated : (shouldPromote cfg.floors cfg.fixed3 metrics.f1 curF1 rows.length
      (classCounts rows)).1 = true → ∃ rows current, seen.rows = some rows ∧
        seen.current = some current ∧ Gated cfg models rows current candidate) :
    (gate cfg models).Obeys (fun _ _ => True) seen
      (promote cfg sha256 now rows candidate metrics curF1) := by
  rw [promote]
  revert gated
  obtain ⟨passed, reason⟩ := shouldPromote cfg.floors cfg.fixed3 metrics.f1 curF1 rows.length
    (classCounts rows)
  intro gated
  cases passed with
  | false => trivial
  | true => exact ⟨trivial, fun _ => ⟨gated rfl, fun _ => trivial⟩⟩

/-- A cycle puts a candidate only after the gate. -/
theorem obeys_consider {now : Int} {rows : List LabeledRow} (fetched : seen.rows = some rows) :
    (gate cfg models).Obeys (fun _ _ => True) seen
      (consider cfg models sha256 now rows) := by
  rw [consider]
  have split : SplitInTime rows (timeSplit cfg.fl cfg.evalFrac rows).1
      (timeSplit cfg.fl cfg.evalFrac rows).2 := timeSplit_splits _
  generalize timeSplit cfg.fl cfg.evalFrac rows = parts at split ⊢
  obtain ⟨train, held⟩ := parts
  dsimp only at split ⊢
  generalize trained : models.train (train.map LabeledRow.text) (train.map LabeledRow.label) =
    candidate
  cases scored : evaluate cfg models candidate held with
  | none => trivial
  | some metrics =>
    refine Discipline.Obeys.bind (?_ : (gate cfg models).Obeys _ seen
      (inBucket ModelStore.getModel))
    refine ⟨trivial, fun got => ?_⟩
    cases got with
    | none =>
      apply obeys_promote
      intro passed
      rw [shouldPromote_none] at passed
      obtain ⟨enough, each⟩ := meetsFloors_iff.mp passed
      exact ⟨rows, none, fetched, rfl, enough, each, train, held, metrics, split, trained.symm,
        scored, nofun⟩
    | some entry =>
      obtain ⟨old, rev⟩ := entry
      change (gate cfg models).Obeys _ _ (match evaluate cfg models old held with
        | none => .raise
        | some metrics' => promote cfg sha256 now rows candidate metrics (some metrics'.f1))
      cases compared : evaluate cfg models old held with
      | none => trivial
      | some previous =>
        apply obeys_promote
        intro passed
        obtain ⟨floors, above⟩ := shouldPromote_iff.mp passed
        obtain ⟨enough, each⟩ := meetsFloors_iff.mp floors
        refine ⟨rows, some old, fetched, rfl, enough, each, train, held, metrics, split,
          trained.symm, scored, fun _ same => ?_⟩
        rw [← Option.some.inj same]
        exact ⟨previous, compared, above⟩

theorem obeys_cycle {cycles : ℕ} {now : Int} :
    (gate cfg models).Obeys (fun _ _ => True) seen (cycle cfg models sha256 cycles now) := by
  rw [cycle, own, Program.perform_bind]
  refine ⟨rfl, fun rows => ?_⟩
  have beat (later : Seen Bytes) (state : RetrainState) :
      (gate cfg models).Obeys (fun _ _ => True) later (own (.upsertSystemState state)) :=
    ⟨trivial, fun _ => trivial⟩
  dsimp only
  split
  · apply Discipline.Obeys.bind
    exact (obeys_consider rfl).mono fun later outcome _ => beat later _
  · exact beat _ _

end Callers

section Runs

variable {ι : Type} {cfg : Config S} {models : Models Bytes S} {sha256 : Bytes → String}
  {loads : Bytes → Bool}

/-- All that start obey the gate. -/
theorem obeys_starts {event : RetrainEvent ι} {caller : ι}
    {program : Program (RetrainStmt Bytes) Unit}
    (starts : event.toPool cfg models sha256 loads = .start caller program) :
    (gate cfg models).Obeys (fun _ _ => True) {} program := by
  cases event with
  | cycle other cycles now =>
    cases starts
    exact obeys_cycle
  | watch other replica =>
    cases starts
    exact obeys_watchTurn
  | change other update =>
    cases starts
    exact ⟨trivial, fun _ => trivial⟩
  | advance other => cases starts
  | abort other => cases starts

theorem kept_start : Kept cfg models ({} : World Bytes) :=
  ⟨nofun, nofun, nofun⟩

variable [DecidableEq ι]

/-- In every state of every run, each classifier a replica filters with was put after it
passed the gate: it was trained on the older part of the labels its cycle had fetched, both
classes were there, and on the newer part it did not fall behind the artifact that this
cycle had read from the bucket, which had been put so before it. -/
theorem installed_vetted (events : List (RetrainEvent ι)) :
    Always (retrainStep cfg models sha256 loads)
      (fun pool => (∀ put ∈ pool.shared.put, Vetted cfg models pool.shared put) ∧
        ∀ replica, ∀ model ∈ (pool.shared.watchers replica).classifier,
          model ∈ pool.shared.put.map Put.model)
      (Informed.idle {} {} : Retraining ι Bytes) events := by
  intro before _
  have along : Along (retrainStep cfg models sha256 loads) (fun _ _ => True)
      (Informed.idle {} {} : Retraining ι Bytes) before :=
    along_of_forall fun _ _ => trivial
  have sound := along.invariant (gateUpkeep cfg models).Sound (Upkeep.sound_idle kept_start)
    fun pool event sound _ => sound.step fun _ _ starts => obeys_starts starts
  exact ⟨sound.invariant.put, sound.invariant.watchers⟩

end Runs

end NewsAggregator.Retrain
