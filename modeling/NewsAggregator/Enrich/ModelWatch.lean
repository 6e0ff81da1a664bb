import NewsAggregator.Classify.ModelStore

/-! The watcher of the models bucket, which installs a promoted classifier into the
live filter. -/

namespace NewsAggregator.Enrich

open Classify Foundation

variable {Bytes : Type}

/-- The loop variable `last_rev`, and the classifier the filter scores with. -/
structure Watcher (Bytes : Type) where
  lastRev : Option ℕ := none
  classifier : Option Bytes := none

/-- One turn of `watch_models`; `loads` tells whether the graph loads and scores. -/
def watchTick (sha256 : Bytes → String) (loads : Bytes → Bool) (watcher : Watcher Bytes) :
    Program (KvStmt Bytes) (Watcher Bytes) := do
  match ← ModelStore.modelRevision with
  | none => .done watcher
  | some rev =>
    if watcher.lastRev = some rev then .done watcher
    else do
      let model ← ModelStore.getModel
      let info ← ModelStore.getMeta
      match model with
      | none => .raise
      | some model =>
        let version := info.elim "" ModelMeta.version
        if version ≠ "" ∧ version ≠ sha256 model then .done watcher
        else if loads model then .done { lastRev := some rev, classifier := some model }
        else .raise

/-- The watcher after a turn; a failed turn keeps the classifier. -/
def watch (sha256 : Bytes → String) (loads : Bytes → Bool) (kv : Bucket Bytes)
    (watcher : Watcher Bytes) : Watcher Bytes :=
  ((Program.execute kvExec none (watchTick sha256 loads watcher) kv).1).getD watcher

/-- The watcher after some turns on a quiet bucket. -/
def watchFor (sha256 : Bytes → String) (loads : Bytes → Bool) (kv : Bucket Bytes) (turns : ℕ) :
    Watcher Bytes :=
  (watch sha256 loads kv)^[turns] {}

/-- The description fits the stored bytes, and from its first turn on a new watcher runs
with them if they load. -/
structure Serves (sha256 : Bytes → String) (loads : Bytes → Bool) (kv : Bucket Bytes) : Prop where
  consistent : ∃ model info, kv.classifier.map Prod.fst = some model ∧
    kv.classifierMeta.map Prod.fst = some info ∧ info.version = sha256 model
  installs : ∀ model, kv.classifier.map Prod.fst = some model → loads model →
    ∀ turns, (watchFor sha256 loads kv (turns + 1)).classifier = some model

/-- The last publish that began has the digest of the last one that ended. -/
def Unbroken (sha256 : Bytes → String) (history : List (Publication Bytes)) : Prop :=
  ∀ begun ∈ lastReaching 1 history, ∀ ended ∈ lastReaching 2 history,
    sha256 begun.candidate = sha256 ended.candidate

section Watch

variable {sha256 : Bytes → String} {loads : Bytes → Bool} {kv : Bucket Bytes}
  {watcher : Watcher Bytes} {model : Bytes} {rev : ℕ} {info : ModelMeta}

/-- A turn that finds a new revision with a fitting description installs it. -/
theorem watch_installs (stored : kv.classifier = some (model, rev))
    (described : kv.classifierMeta.map Prod.fst = some info) (fits : info.version = sha256 model)
    (sound : loads model) (news : watcher.lastRev ≠ some rev) :
    watch sha256 loads kv watcher = { lastRev := some rev, classifier := some model } := by
  obtain ⟨⟨info, _⟩, found, rfl⟩ := Option.map_eq_some_iff.mp described
  dsimp only at fits
  simp [watch, watchTick, ModelStore.modelRevision, ModelStore.getModel, ModelStore.getMeta,
    Program.execute, Program.executeFrom, kvExec, stored, found, news, fits, sound]

theorem watch_idle (stored : kv.classifier = some (model, rev))
    (known : watcher.lastRev = some rev) : watch sha256 loads kv watcher = watcher := by
  simp [watch, watchTick, ModelStore.modelRevision, Program.execute, Program.executeFrom, kvExec,
    stored, known]

/-- A fitting description is enough for a new watcher to run with the stored bytes. -/
theorem serves_of_consistent
    (consistent : ∃ model info, kv.classifier.map Prod.fst = some model ∧
      kv.classifierMeta.map Prod.fst = some info ∧ info.version = sha256 model) :
    Serves sha256 loads kv := by
  refine ⟨consistent, fun model holds sound turns => ?_⟩
  obtain ⟨other, info, same, described, fits⟩ := consistent
  obtain rfl : model = other := Option.some.inj (holds.symm.trans same)
  obtain ⟨⟨bytes, rev⟩, stored, rfl⟩ := Option.map_eq_some_iff.mp holds
  have installed : watchFor sha256 loads kv (turns + 1) = ⟨some rev, some bytes⟩ := by
    induction turns with
    | zero => exact watch_installs stored described fits sound nofun
    | succ turns ih =>
      rw [watchFor, Function.iterate_succ_apply', ← watchFor, ih]
      exact watch_idle stored rfl
  rw [installed]

end Watch

/-- After a history with a complete publish the bucket serves its bytes exactly if no
publish of other bytes has broken off since. -/
theorem served_iff (sha256 : Bytes → String) (loads : Bytes → Bool)
    (history : List (Publication Bytes)) :
    ((∃ publication ∈ history, Program.Reached publication.cut 2) →
      Serves sha256 loads (run (publishInto sha256) {} history)) ↔ Unbroken sha256 history := by
  obtain ⟨bytes, description⟩ := bucket_eq sha256 history
  constructor
  · intro serves begun first ended last
    obtain ⟨model, info, stored, described, fits⟩ :=
      (serves (lastReaching_isSome.mp (Option.isSome_of_mem last))).consistent
    rw [bytes, Option.mem_def.mp last] at stored
    rw [description, Option.mem_def.mp first] at described
    cases stored
    cases described
    exact fits
  · intro unbroken complete
    obtain ⟨publication, member, reached⟩ := complete
    obtain ⟨ended, last⟩ := Option.isSome_iff_exists.mp
      (lastReaching_isSome.mpr ⟨publication, member, reached⟩)
    obtain ⟨begun, first⟩ := Option.isSome_iff_exists.mp
      (lastReaching_isSome.mpr ⟨publication, member, reached.of_le (by decide : 1 ≤ 2)⟩)
    refine serves_of_consistent ⟨ended.candidate, begun.describe sha256, ?_, ?_, ?_⟩
    · rw [bytes, last]
      rfl
    · rw [description, first]
      rfl
    · exact unbroken begun first ended last

/-- The digests of two artifacts. -/
def digestOf (bytes : String) : String :=
  if bytes = "old" then "cba06b5736faf67e54b07b561eae94395e774c517a7d910a54369e1263ccfbd4"
  else "11507a0e2f5e69d5dfa40a62a1bd7b6ee57e6bcd85c67c9b8431b36fff21c437"

/-- A publish that broke off after the description of another artifact. -/
def interrupted : List (Publication String) :=
  [{ candidate := "old" }, { candidate := "new", cut := some 1 }]

/-- The complete publish before it is stranded. -/
theorem interrupted_stranded : ¬ ((∃ publication ∈ interrupted,
    Program.Reached publication.cut 2) →
      Serves digestOf (fun _ => true) (run (publishInto digestOf) {} interrupted)) := by
  intro serves
  obtain ⟨model, info, stored, described, fits⟩ :=
    (serves ⟨_, List.mem_cons_self, fun _ none => nomatch none⟩).consistent
  have bytes : (run (publishInto digestOf) {} interrupted).classifier.map Prod.fst =
      some "old" := (bucket_eq digestOf interrupted).1
  have description : (run (publishInto digestOf) {} interrupted).classifierMeta.map Prod.fst =
      some { version := digestOf "new" } := (bucket_eq digestOf interrupted).2
  cases bytes.symm.trans stored
  cases description.symm.trans described
  exact absurd fits (by decide)

end NewsAggregator.Enrich
