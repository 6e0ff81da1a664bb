import NewsAggregator.Cluster.Consumer

/-! A delivery that nothing stops but an `INSERT` that finds no partition: whether its
attempt ends. -/

namespace NewsAggregator.Cluster

open Bus Trust Foundation

/-- What such a delivery meets: its clock and `uuid4`, the index, and the partitions of
`stories` and `provenance_edges` with the days its process has ensured. -/
structure Visit where
  draw : Draw
  surfaced : List (Uuid × Int) := []
  stories : Provision := {}
  edges : Provision := {}

/-- The attempt of a visit, which fails at the first `INSERT` without a partition. -/
def Visit.attempt (d : Deployment) (seq : ℕ) (visit : Visit) (store : Store) : Attempt where
  draw := visit.draw
  surfaced := visit.surfaced
  cut := (d.item seq).bind fun enriched =>
    Program.failsAt (exec d.py d.pg visit.surfaced) (misses visit.stories visit.edges) 0
      (handle d.py d.cfg visit.draw enriched) store

def visitStep (d : Deployment) (system : System) (turn : ℕ × Visit) : System :=
  step d system (.deliver turn.1 (turn.2.attempt d turn.1 system.store))

/-- The attempts of visits in their order. -/
def Deployment.attempts (d : Deployment) : System → List (ℕ × Visit) → List (ℕ × Attempt)
  | _, [] => []
  | system, turn :: rest =>
    (turn.1, turn.2.attempt d turn.1 system.store) :: d.attempts (visitStep d system turn) rest

section Attempt

variable (py : Python) (pg : Postgres) (cfg : Config) (draw : Draw)
  (surfaced : List (Uuid × Int)) (enriched : EnrichedItem)

/-- The partition is there for the Story an item opens, or for its edges in the Story it
joins. -/
def FindsPartitions (stories edges : Provision) (store : Store) : Prop :=
  match targetOf py pg cfg draw surfaced enriched store with
  | none => stories.places enriched.item.tsObserved = true
  | some storyId => ∀ edge ∈ newEdges py storyId enriched.item.id
      (assigned py pg cfg draw surfaced enriched store), edges.places ⟨edge.tsObserved, 0⟩ = true

instance (stories edges : Provision) (store : Store) :
    Decidable (FindsPartitions py pg cfg draw surfaced enriched stories edges store) := by
  unfold FindsPartitions
  split <;> infer_instance

end Attempt

/-- A visit finds the partitions it needs. -/
def Placed (d : Deployment) (system : System) (turn : ℕ × Visit) : Prop :=
  ∀ enriched ∈ d.item turn.1, FindsPartitions d.py d.pg d.cfg turn.2.draw turn.2.surfaced enriched
    turn.2.stories turn.2.edges system.store

instance (d : Deployment) (system : System) : DecidablePred (Placed d system) :=
  fun turn => inferInstanceAs (Decidable (∀ enriched ∈ d.item turn.1, _))

/-- The writer has stored the item of the message, whose text keeps the cap of its model. -/
def Ready (d : Deployment) (system : System) (seq : ℕ) : Prop :=
  ∀ enriched ∈ d.item seq, Stored system.store enriched.item.key ∧
    enriched.item.text.length ≤ maxTextLen

instance (d : Deployment) (system : System) : DecidablePred (Ready d system) :=
  fun seq => inferInstanceAs (Decidable (∀ enriched ∈ d.item seq, _))

section Completion

variable {py : Python} {pg : Postgres} {cfg : Config} {draw : Draw}
  {surfaced : List (Uuid × Int)} {enriched : EnrichedItem} {store : Store}
  {stories edges : Provision}

/-- The recount of a visible member completes. -/
theorem updateTrustOf_completes {storyId itemId : Uuid}
    (visible : ∃ row ∈ store.members storyId, row.item.id = itemId) :
    Program.Completes (exec py pg surfaced) (fun _ _ => True)
      (updateTrustOf py cfg storyId itemId) store := by
  obtain ⟨newNode, row, found, first⟩ := visible_node py visible
  unfold nodesOf at found
  simp only [updateTrustOf, Program.perform_bind, Program.pure_eq, Program.Completes, exec, found,
    first]

/-- It fails only where its edges find no partition. -/
theorem updateTrustOf_failsAt {storyId itemId : Uuid} {taken : ℕ}
    (visible : ∃ row ∈ store.members storyId, row.item.id = itemId) :
    Program.failsAt (exec py pg surfaced) (misses stories edges) taken
        (updateTrustOf py cfg storyId itemId) store = none ↔
      ∀ edge ∈ newEdges py storyId itemId store, edges.places ⟨edge.tsObserved, 0⟩ = true := by
  obtain ⟨newNode, row, found, first⟩ := visible_node py visible
  have inserted : newEdges py storyId itemId store =
      (detectEdges newNode (nodesOf py storyId store)).map fun edge =>
        ⟨storyId, edge.src, edge.dst, edge.edgeType, row.item.tsObserved.instant⟩ := by
    rw [newEdges, found, first]
  rw [inserted, List.forall_mem_map]
  unfold nodesOf at found ⊢
  simp only [updateTrustOf, Program.perform_bind, Program.pure_eq, Program.failsAt, misses, exec,
    found, first, Bool.false_eq_true, if_false]
  cases detectEdges newNode ((store.members storyId).map (provNode py)) with
  | nil => simp
  | cons first rest =>
    have constant : (∀ edge ∈ first :: rest,
        edges.places ⟨row.item.tsObserved.instant, 0⟩ = true) ↔
        edges.places ⟨row.item.tsObserved.instant, 0⟩ = true :=
      ⟨fun all => all first List.mem_cons_self, fun found _ _ => found⟩
    rw [constant]
    simp

/-- An attempt at a stored item completes, whatever earlier ones left behind. -/
theorem handle_completes (stored : Stored store enriched.item.key)
    (textCap : enriched.item.text.length ≤ maxTextLen) :
    Program.Completes (exec py pg surfaced) (fun _ _ => True) (handle py cfg draw enriched)
      store := by
  have gate (storyId : Uuid) (origins : ℕ) (store : Store) :
      Program.Completes (exec py pg surfaced) (fun _ _ => True)
        (if isCandidate origins then
          if textCap : enriched.item.text.length ≤ maxTextLen then
            .perform (.publishHeavy ⟨storyId, enriched.item.id, enriched.item.text, textCap⟩)
          else .raise
        else pure ()) store := by
    split
    · trivial
    · trivial
  simp only [handle, Program.perform_bind, Program.Completes, exec, stored.any,
    Bool.not_true, Bool.false_eq_true, if_false]
  cases chosen : targetOf py pg cfg draw surfaced enriched store with
  | none =>
    have place := chosen
    unfold targetOf at place
    simp only [place, Program.Completes, Program.pure_eq, Program.done_bind]
    exact gate _ _ _
  | some storyId =>
    have place := chosen
    have visible := visible_touched stored chosen
    unfold targetOf at place
    rw [touched, assigned, storyOf_joins chosen] at visible
    simp only [place, Option.getD_some]
    apply Program.Completes.bind
    exact (updateTrustOf_completes visible).mono fun origins after _ => gate storyId origins after

/-- It fails only where an `INSERT` of it finds no partition. -/
theorem handle_failsAt (stored : Stored store enriched.item.key) :
    Program.failsAt (exec py pg surfaced) (misses stories edges) 0
        (handle py cfg draw enriched) store = none ↔
      FindsPartitions py pg cfg draw surfaced enriched stories edges store := by
  have gate (storyId : Uuid) (origins : ℕ) (store : Store) (taken : ℕ) :
      Program.failsAt (exec py pg surfaced) (misses stories edges) taken
        (if isCandidate origins then
          if textCap : enriched.item.text.length ≤ maxTextLen then
            .perform (.publishHeavy ⟨storyId, enriched.item.id, enriched.item.text, textCap⟩)
          else .raise
        else pure ()) store = none := by
    split
    · split <;> rfl
    · rfl
  simp only [handle, Program.perform_bind, Program.failsAt, misses, exec, stored.any,
    Bool.not_true, Bool.false_eq_true, if_false]
  cases chosen : targetOf py pg cfg draw surfaced enriched store with
  | none =>
    have place := chosen
    unfold targetOf at place
    simp only [FindsPartitions, chosen, place, Program.failsAt]
    rw [Program.pure_eq, Program.done_bind, gate]
    simp [misses]
  | some storyId =>
    have place := chosen
    have visible := visible_touched stored chosen
    unfold targetOf at place
    rw [touched, assigned, storyOf_joins chosen] at visible
    simp only [FindsPartitions, chosen, place, Option.getD_some, Program.failsAt, misses,
      Bool.false_eq_true, if_false, exec]
    rw [Program.failsAt_bind (gate storyId)]
    refine (updateTrustOf_failsAt visible).trans ?_
    rw [newEdges_congr (items_touchStory ..), assigned, storyOf_joins chosen]

end Completion

section Visits

variable {d : Deployment} {system : System} {turn : ℕ × Visit}

/-- The attempt of a visit to a stored item ends exactly if it finds its partitions. -/
theorem visit_ends_iff (visit : Visit) {seq : ℕ} {enriched : EnrichedItem}
    (handled : d.item seq = some enriched) (stored : Stored system.store enriched.item.key)
    (textCap : enriched.item.text.length ≤ maxTextLen) :
    (d.attempt (visit.attempt d seq system.store) enriched system.store).1.isSome ↔
      FindsPartitions d.py d.pg d.cfg visit.draw visit.surfaced enriched visit.stories visit.edges
        system.store := by
  rw [Deployment.attempt, Visit.attempt, handled]
  dsimp only [Option.bind_some]
  exact (handle_completes stored textCap).returns_iff.trans (handle_failsAt stored)

/-- A visit to a stored item settles its message, or leaves it waiting for want of a
partition. -/
theorem visitStep_settles (ready : Ready d system turn.1) :
    (Placed d system turn ∧ (visitStep d system turn).waiting = system.waiting.erase turn.1 ∧
        system.acked ⊆ (visitStep d system turn).acked ∧
        ((d.item turn.1).isSome → turn.1 ∈ (visitStep d system turn).acked)) ∨
      (¬ Placed d system turn ∧ turn.1 ∈ (visitStep d system turn).waiting) := by
  unfold visitStep
  cases handled : d.item turn.1 with
  | none =>
    have placed : Placed d system turn := fun enriched sent => by rw [handled] at sent; cases sent
    rw [step_dropped handled]
    exact .inl ⟨placed, rfl, Finset.Subset.refl _, nofun⟩
  | some enriched =>
    obtain ⟨stored, textCap⟩ := ready enriched handled
    have ends := visit_ends_iff turn.2 handled stored textCap
    obtain ⟨result, final, ran, _, next⟩ :=
      step_handled system (turn.2.attempt d turn.1 system.store) handled
    rw [next]
    rw [ran] at ends
    cases result with
    | none =>
      refine .inr ⟨fun placed => ?_, Finset.mem_insert_self _ _⟩
      exact Bool.noConfusion (ends.mpr (placed enriched handled))
    | some ended =>
      have placed : Placed d system turn := by
        intro other sent
        rw [handled] at sent
        rw [← Option.some.inj sent]
        exact ends.mp rfl
      exact .inl ⟨placed, rfl, Finset.subset_insert _ _, fun _ => Finset.mem_insert_self _ _⟩

theorem run_attempts (d : Deployment) (turns : List (ℕ × Visit)) (system : System) :
    run (step d) system ((d.attempts system turns).map fun turn => .deliver turn.1 turn.2) =
      run (visitStep d) system turns := by
  induction turns generalizing system with
  | nil => rfl
  | cons turn rest ih => exact ih _

end Visits

end NewsAggregator.Cluster
