import Mathlib.Data.String.Basic
import NewsAggregator.Foundation.Classes
import NewsAggregator.Foundation.UnionFind
import NewsAggregator.Trust.Edges

/-! Independent origins: the weakly connected components of a Story's
provenance graph, collapsed by origin key. The union-find result is the
partition into classes of the generated equivalence. -/

namespace NewsAggregator.Trust

open Foundation

def nodeIds (nodes : List ProvNode) : Finset Uuid := (nodes.map ProvNode.itemId).toFinset

/-- One turn of the edge loop; an edge may name a member that aged out. -/
def unionEdge (known : Finset Uuid) (uf : UnionFind Uuid) (edge : ProvEdge) : UnionFind Uuid :=
  if edge.src ∈ known ∧ edge.dst ∈ known then uf.union edge.src edge.dst else uf

/-- One turn of the key loop, with the dictionary `origin_of_key`. -/
def collapseKey (state : UnionFind Uuid × List (String × Uuid)) (node : ProvNode) :
    UnionFind Uuid × List (String × Uuid) :=
  if node.originKey = "" then state
  else
    let (root, uf) := state.1.find node.itemId
    match state.2.lookup node.originKey with
    | some other => (uf.union root other, state.2)
    | none => (uf, (node.originKey, root) :: state.2)

/-- The forest after all three loops. -/
def originForest (nodes : List ProvNode) (edges : List ProvEdge) : UnionFind Uuid :=
  let uf := nodes.foldl (fun uf node => uf.add node.itemId) UnionFind.empty
  let uf := edges.foldl (unionEdge (nodeIds nodes)) uf
  (nodes.foldl collapseKey (uf, [])).1

def originComponents (nodes : List ProvNode) (edges : List ProvEdge) : List (Finset Uuid) :=
  if nodes.isEmpty then [] else (originForest nodes edges).components

def independentOrigins (nodes : List ProvNode) (edges : List ProvEdge) : Nat :=
  (originComponents nodes edges).length

/-- The dictionary `by_id`: the last node of an id. -/
def byId (nodes : List ProvNode) (id : Uuid) : Option ProvNode :=
  nodes.reverse.find? fun node => node.itemId == id

/-- A node's source; an empty one counts as none. -/
def sourceOf (nodes : List ProvNode) (id : Uuid) : Option String :=
  (byId nodes id).bind fun node => if node.source = "" then none else some node.source

/-- The first of a component's sorted sources. -/
def representative (nodes : List ProvNode) (component : Finset Uuid) : Option String :=
  (component.biUnion fun id => (sourceOf nodes id).toFinset).min

def distinctOriginSources (nodes : List ProvNode) (edges : List ProvEdge) : Nat :=
  ((originComponents nodes edges).filterMap (representative nodes)).toFinset.card

/-! The declarative reading: the smallest equivalence that holds the known
edges and the pairs with one origin key. -/

inductive Linked (nodes : List ProvNode) (edges : List ProvEdge) : Uuid → Uuid → Prop where
  | edge {edge : ProvEdge} (member : edge ∈ edges) (src : edge.src ∈ nodeIds nodes)
      (dst : edge.dst ∈ nodeIds nodes) : Linked nodes edges edge.src edge.dst
  | key {a b : ProvNode} (aMember : a ∈ nodes) (bMember : b ∈ nodes)
      (nonempty : a.originKey ≠ "") (same : a.originKey = b.originKey) :
      Linked nodes edges a.itemId b.itemId

def sameOrigin (nodes : List ProvNode) (edges : List ProvEdge) : Setoid Uuid :=
  Relation.EqvGen.setoid (Linked nodes edges)

theorem mem_nodeIds {nodes : List ProvNode} {id : Uuid} :
    id ∈ nodeIds nodes ↔ ∃ node ∈ nodes, node.itemId = id := by
  simp [nodeIds]

theorem byId_spec {nodes : List ProvNode} {id : Uuid} {node : ProvNode}
    (found : byId nodes id = some node) : node ∈ nodes ∧ node.itemId = id := by
  have member := List.mem_of_find?_eq_some found
  have same := List.find?_some found
  exact ⟨List.mem_reverse.mp member, eq_of_beq same⟩

theorem itemId_mem {nodes : List ProvNode} {node : ProvNode} (member : node ∈ nodes) :
    node.itemId ∈ nodeIds nodes :=
  mem_nodeIds.mpr ⟨node, member, rfl⟩

/-- An equivalence that holds the generators holds the closure. -/
theorem sameOrigin_le {nodes : List ProvNode} {edges : List ProvEdge} {r : Setoid Uuid}
    (holds : ∀ a b, Linked nodes edges a b → r a b) {a b : Uuid}
    (related : sameOrigin nodes edges a b) : r a b := by
  induction related with
  | rel a b linked => exact holds a b linked
  | refl a => exact r.refl a
  | symm a b _ ih => exact r.symm ih
  | trans a b c _ _ first second => exact r.trans first second

section Forest

variable {nodes : List ProvNode} {edges : List ProvEdge}

private theorem added (nodes : List ProvNode) :
    ∀ uf : UnionFind Uuid, uf.Valid →
      let grown := nodes.foldl (fun uf node => uf.add node.itemId) uf
      grown.Valid ∧ (∀ id, id ∈ grown.keys ↔ id ∈ uf.keys ∨ id ∈ nodeIds nodes) ∧
        ∀ id, grown.root id = uf.root id := by
  induction nodes with
  | nil =>
    intro uf valid
    exact ⟨valid, fun id => by simp [nodeIds], fun _ => rfl⟩
  | cons node rest ih =>
    intro uf valid
    obtain ⟨grownValid, keys, roots⟩ := ih (uf.add node.itemId) (valid.add node.itemId)
    refine ⟨grownValid, fun id => ?_, fun id => ?_⟩
    · rw [List.foldl_cons, keys, UnionFind.mem_keys_add]
      simp only [nodeIds, List.map_cons, List.toFinset_cons, Finset.mem_insert]
      tauto
    · rw [List.foldl_cons, roots, valid.root_add]

/-- What a loop of unions maintains: valid, over all nodes, inside `sameOrigin`. -/
private structure Sound (nodes : List ProvNode) (edges : List ProvEdge) (uf : UnionFind Uuid) :
    Prop where
  valid : uf.Valid
  keys : ∀ id, id ∈ uf.keys ↔ id ∈ nodeIds nodes
  inside : ∀ a b, uf.Same a b → sameOrigin nodes edges a b

private theorem Sound.union {uf : UnionFind Uuid} (sound : Sound nodes edges uf) {a b : Uuid}
    (aKnown : a ∈ nodeIds nodes) (bKnown : b ∈ nodeIds nodes)
    (related : sameOrigin nodes edges a b) : Sound nodes edges (uf.union a b) := by
  have aKey := (sound.keys a).mpr aKnown
  have bKey := (sound.keys b).mpr bKnown
  obtain ⟨valid, keys, _⟩ := sound.valid.union_spec aKey bKey
  refine ⟨valid, fun id => ?_, fun x y same => ?_⟩
  · rw [keys]
    exact sound.keys id
  · exact sound.valid.union_sound aKey bKey (sameOrigin nodes edges).iseqv sound.inside related same

private theorem edges_fold (rest : List ProvEdge) (subset : ∀ edge ∈ rest, edge ∈ edges) :
    ∀ uf : UnionFind Uuid, Sound nodes edges uf →
      let joined := rest.foldl (unionEdge (nodeIds nodes)) uf
      Sound nodes edges joined ∧ (∀ a b, uf.Same a b → joined.Same a b) ∧
        ∀ edge ∈ rest, edge.src ∈ nodeIds nodes → edge.dst ∈ nodeIds nodes →
          joined.Same edge.src edge.dst := by
  induction rest with
  | nil =>
    intro uf sound
    exact ⟨sound, fun _ _ same => same, by simp⟩
  | cons edge rest ih =>
    intro uf sound
    have later := ih (fun other member => subset other (List.mem_cons_of_mem edge member))
    have own := subset edge List.mem_cons_self
    simp only [List.foldl_cons]
    by_cases known : edge.src ∈ nodeIds nodes ∧ edge.dst ∈ nodeIds nodes
    · have srcKey := (sound.keys _).mpr known.1
      have dstKey := (sound.keys _).mpr known.2
      have next := sound.union known.1 known.2 (.rel _ _ (.edge own known.1 known.2))
      obtain ⟨final, kept, joined⟩ := later _ next
      simp only [unionEdge, known, and_self, if_true]
      refine ⟨final, fun a b same => kept a b (sound.valid.union_mono srcKey dstKey same), ?_⟩
      intro other member src dst
      rcases List.mem_cons.mp member with rfl | old
      · exact kept _ _ (sound.valid.union_joins srcKey dstKey)
      · exact joined other old src dst
    · obtain ⟨final, kept, joined⟩ := later uf sound
      simp only [unionEdge, known, if_false]
      refine ⟨final, kept, ?_⟩
      intro other member src dst
      rcases List.mem_cons.mp member with rfl | old
      · exact absurd ⟨src, dst⟩ known
      · exact joined other old src dst

/-- The dictionary names, for every key met, an id in the class of each node
with that key. The root it stores may no longer be one. -/
private structure Collapsed (nodes : List ProvNode) (edges : List ProvEdge)
    (listed : List ProvNode) (state : UnionFind Uuid × List (String × Uuid)) : Prop where
  sound : Sound nodes edges state.1
  known : ∀ key id, state.2.lookup key = some id → id ∈ nodeIds nodes
  met : ∀ node ∈ listed, node.originKey ≠ "" →
    ∃ id, state.2.lookup node.originKey = some id ∧ state.1.Same node.itemId id
  owned : ∀ key id, state.2.lookup key = some id →
    ∃ node ∈ nodes, node.originKey = key ∧ key ≠ "" ∧ sameOrigin nodes edges node.itemId id

/-- Looking up a root changes no class. -/
private theorem Sound.find {uf : UnionFind Uuid} (sound : Sound nodes edges uf) {id : Uuid}
    (known : id ∈ nodeIds nodes) :
    (uf.find id).1 = uf.root id ∧ Sound nodes edges (uf.find id).2 ∧
      (∀ a b, (uf.find id).2.Same a b ↔ uf.Same a b) ∧
      uf.root id ∈ nodeIds nodes ∧ uf.Same id (uf.root id) := by
  obtain ⟨found, valid, keys, roots⟩ := sound.valid.find_spec id
  have same : ∀ a b, (uf.find id).2.Same a b ↔ uf.Same a b := by
    intro a b
    simp only [UnionFind.Same, roots]
  refine ⟨found, ⟨valid, ?_, ?_⟩, same, ?_, (sound.valid.root_root _).symm⟩
  · intro other
    rw [keys]
    exact sound.keys other
  · exact fun a b related => sound.inside a b ((same a b).mp related)
  · exact (sound.keys _).mp (sound.valid.root_mem ((sound.keys _).mpr known))

section Step

variable {listed : List ProvNode} {uf : UnionFind Uuid} {originOfKey : List (String × Uuid)}
  {node : ProvNode}

/-- A node whose key is known joins the class the dictionary names. -/
private theorem Collapsed.meet (collapsed : Collapsed nodes edges listed (uf, originOfKey))
    (member : node ∈ nodes) (keyed : node.originKey ≠ "") {other : Uuid}
    (entry : originOfKey.lookup node.originKey = some other) :
    let joined := (uf.find node.itemId).2.union (uf.root node.itemId) other
    Collapsed nodes edges (listed ++ [node]) (joined, originOfKey) ∧
      ∀ a b, uf.Same a b → joined.Same a b := by
  intro joined
  obtain ⟨sound, known, met, owned⟩ := collapsed
  obtain ⟨_, soundFound, sameFound, rootKnown, ownRoot⟩ := sound.find (itemId_mem member)
  obtain ⟨owner, ownerMember, ownerKey, _, ownerRelated⟩ := owned _ _ entry
  have otherKnown := known _ _ entry
  have related : sameOrigin nodes edges (uf.root node.itemId) other := by
    have pair : sameOrigin nodes edges node.itemId owner.itemId :=
      .rel _ _ (.key member ownerMember keyed ownerKey.symm)
    exact (sameOrigin nodes edges).trans
      ((sameOrigin nodes edges).symm (sound.inside _ _ ownRoot))
      ((sameOrigin nodes edges).trans pair ownerRelated)
  have rootKey := (soundFound.keys _).mpr rootKnown
  have otherKey := (soundFound.keys _).mpr otherKnown
  have grown : ∀ a b, uf.Same a b → joined.Same a b := fun a b same =>
    soundFound.valid.union_mono rootKey otherKey ((sameFound a b).mpr same)
  refine ⟨⟨soundFound.union rootKnown otherKnown related, known, ?_, owned⟩, grown⟩
  intro listedNode present nonempty
  rcases List.mem_append.mp present with old | new
  · obtain ⟨id, stored, same⟩ := met listedNode old nonempty
    exact ⟨id, stored, grown _ _ same⟩
  · rw [List.mem_singleton] at new
    subst new
    exact ⟨other, entry, (grown _ _ ownRoot).trans
      (soundFound.valid.union_joins rootKey otherKey)⟩

/-- A node whose key is new enters its root under the key. -/
private theorem Collapsed.enter (collapsed : Collapsed nodes edges listed (uf, originOfKey))
    (member : node ∈ nodes) (keyed : node.originKey ≠ "")
    (entry : originOfKey.lookup node.originKey = none) :
    Collapsed nodes edges (listed ++ [node])
        ((uf.find node.itemId).2, (node.originKey, uf.root node.itemId) :: originOfKey) ∧
      ∀ a b, uf.Same a b → (uf.find node.itemId).2.Same a b := by
  obtain ⟨sound, known, met, owned⟩ := collapsed
  obtain ⟨_, soundFound, sameFound, rootKnown, ownRoot⟩ := sound.find (itemId_mem member)
  have lookup : ∀ key, ((node.originKey, uf.root node.itemId) :: originOfKey).lookup key =
      if key = node.originKey then some (uf.root node.itemId) else originOfKey.lookup key := by
    intro key
    rw [List.lookup_cons]
    by_cases same : key = node.originKey
    · simp [same]
    · simp [same, beq_false_of_ne same]
  refine ⟨⟨soundFound, ?_, ?_, ?_⟩, fun a b same => (sameFound a b).mpr same⟩
  · intro key id stored
    rw [lookup] at stored
    split at stored
    · rw [← Option.some.inj stored]
      exact rootKnown
    · exact known key id stored
  · intro listedNode present nonempty
    simp only [lookup]
    rcases List.mem_append.mp present with old | new
    · obtain ⟨id, stored, same⟩ := met listedNode old nonempty
      have different : listedNode.originKey ≠ node.originKey := by
        intro equal
        rw [equal, entry] at stored
        cases stored
      simp only [different, if_false]
      exact ⟨id, stored, (sameFound _ _).mpr same⟩
    · rw [List.mem_singleton] at new
      subst new
      simp only [if_true]
      exact ⟨_, rfl, (sameFound _ _).mpr ownRoot⟩
  · intro key id stored
    rw [lookup] at stored
    split at stored
    · rename_i same
      rw [← Option.some.inj stored]
      exact ⟨node, member, same.symm, same ▸ keyed, sound.inside _ _ ownRoot⟩
    · exact owned key id stored

private theorem Collapsed.step (collapsed : Collapsed nodes edges listed (uf, originOfKey))
    (member : node ∈ nodes) :
    Collapsed nodes edges (listed ++ [node]) (collapseKey (uf, originOfKey) node) ∧
      ∀ a b, uf.Same a b → (collapseKey (uf, originOfKey) node).1.Same a b := by
  by_cases keyless : node.originKey = ""
  · simp only [collapseKey, keyless, if_true]
    obtain ⟨sound, known, met, owned⟩ := collapsed
    refine ⟨⟨sound, known, ?_, owned⟩, fun _ _ same => same⟩
    intro other present nonempty
    rcases List.mem_append.mp present with old | new
    · exact met other old nonempty
    · rw [List.mem_singleton] at new
      subst new
      exact absurd keyless nonempty
  · obtain ⟨found, _⟩ := collapsed.sound.find (itemId_mem member)
    cases entry : originOfKey.lookup node.originKey with
    | some other =>
      simp only [collapseKey, keyless, if_false, found, entry]
      exact collapsed.meet member keyless entry
    | none =>
      simp only [collapseKey, keyless, if_false, found, entry]
      exact collapsed.enter member keyless entry

end Step

private theorem keys_fold (rest : List ProvNode) (subset : ∀ node ∈ rest, node ∈ nodes) :
    ∀ (listed : List ProvNode) (state : UnionFind Uuid × List (String × Uuid)),
      Collapsed nodes edges listed state →
      Collapsed nodes edges (listed ++ rest) (rest.foldl collapseKey state) ∧
        ∀ a b, state.1.Same a b → (rest.foldl collapseKey state).1.Same a b := by
  induction rest with
  | nil =>
    intro listed state collapsed
    simpa using collapsed
  | cons node rest ih =>
    intro listed state collapsed
    obtain ⟨uf, originOfKey⟩ := state
    obtain ⟨next, kept⟩ := collapsed.step (subset node List.mem_cons_self)
    have below := fun other member => subset other (List.mem_cons_of_mem node member)
    obtain ⟨final, later⟩ := ih below (listed ++ [node]) (collapseKey (uf, originOfKey) node) next
    rw [List.append_cons]
    exact ⟨final, fun a b same => later a b (kept a b same)⟩

/-- The forest computes exactly the generated equivalence. -/
theorem originForest_spec (nodes : List ProvNode) (edges : List ProvEdge) :
    (originForest nodes edges).Valid ∧
      (∀ id, id ∈ (originForest nodes edges).keys ↔ id ∈ nodeIds nodes) ∧
      ∀ a b, (originForest nodes edges).Same a b ↔ sameOrigin nodes edges a b := by
  obtain ⟨grownValid, grownKeys, grownRoots⟩ := added nodes UnionFind.empty UnionFind.valid_empty
  have start : Sound nodes edges
      (nodes.foldl (fun uf node => uf.add node.itemId) UnionFind.empty) := by
    refine ⟨grownValid, fun id => ?_, fun a b same => ?_⟩
    · rw [grownKeys]
      simp [UnionFind.empty]
    · rw [UnionFind.Same, grownRoots, grownRoots] at same
      have equal : a = b := same
      exact equal ▸ (sameOrigin nodes edges).refl a
  obtain ⟨joinedSound, _, joined⟩ := edges_fold edges (fun _ member => member) _ start
  have ready : Collapsed nodes edges []
      (edges.foldl (unionEdge (nodeIds nodes))
        (nodes.foldl (fun uf node => uf.add node.itemId) UnionFind.empty), []) :=
    ⟨joinedSound, by simp, by simp, by simp⟩
  obtain ⟨final, kept⟩ := keys_fold nodes (fun _ member => member) [] _ ready
  rw [List.nil_append] at final
  refine ⟨final.sound.valid, final.sound.keys, fun a b =>
    ⟨final.sound.inside a b, fun related => ?_⟩⟩
  refine sameOrigin_le (r := ⟨_, (originForest nodes edges).same_equivalence⟩) ?_ related
  intro a b linked
  cases linked with
  | edge member src dst => exact kept _ _ (joined _ member src dst)
  | @key a b aMember bMember nonempty same =>
    obtain ⟨id, stored, aSame⟩ := final.met a aMember nonempty
    obtain ⟨id', stored', bSame⟩ := final.met b bMember (same ▸ nonempty)
    rw [same, stored'] at stored
    rw [← Option.some.inj stored] at aSame
    exact aSame.trans bSame.symm

theorem forest_keys : (originForest nodes edges).keys.toFinset = nodeIds nodes := by
  ext id
  rw [List.mem_toFinset]
  exact (originForest_spec nodes edges).2.1 id

/-- The components are the classes of the members. -/
theorem mem_originComponents {component : Finset Uuid} :
    component ∈ originComponents nodes edges ↔ ∃ id ∈ nodeIds nodes,
      ∀ other, other ∈ component ↔ other ∈ nodeIds nodes ∧ sameOrigin nodes edges other id := by
  obtain ⟨valid, keys, same⟩ := originForest_spec nodes edges
  rw [originComponents]
  split
  · rename_i empty
    simp [List.isEmpty_iff.mp empty, nodeIds]
  · rw [valid.mem_components, forest_keys]
    constructor
    · rintro ⟨id, key, rfl⟩
      refine ⟨id, (keys id).mp key, fun other => ?_⟩
      rw [Finset.mem_filter, ← same]
      rfl
    · rintro ⟨id, member, spec⟩
      refine ⟨id, (keys id).mpr member, ?_⟩
      ext other
      rw [spec, Finset.mem_filter, ← same]
      rfl

/-- The count of origins is the number of classes. -/
theorem independentOrigins_eq : independentOrigins nodes edges =
    classCount (sameOrigin nodes edges) (nodeIds nodes) := by
  obtain ⟨valid, keys, same⟩ := originForest_spec nodes edges
  rw [independentOrigins, originComponents]
  split
  · rename_i empty
    simp [List.isEmpty_iff.mp empty, nodeIds, classCount]
  · rw [valid.components_length, forest_keys,
      classCount_eq_image (originForest nodes edges).root (fun a _ b _ => same a b)]

/-- Components with a property of their members, counted as classes. -/
theorem countP_originComponents (touches : Uuid → Prop) [DecidablePred touches] :
    ((originComponents nodes edges).filter fun component => ∃ id ∈ component, touches id).length =
      classCount (sameOrigin nodes edges) ((nodeIds nodes).filter touches) := by
  obtain ⟨valid, keys, same⟩ := originForest_spec nodes edges
  rw [originComponents]
  split
  · rename_i empty
    simp [List.isEmpty_iff.mp empty, nodeIds, classCount]
  · rw [valid.countP_components, forest_keys,
      classCount_eq_image (originForest nodes edges).root (fun a _ b _ => same a b)]
    congr 1
    ext r
    simp only [Finset.mem_filter, Finset.mem_image]
    constructor
    · rintro ⟨_, id, ⟨known, rfl⟩, touched⟩
      exact ⟨id, ⟨known, touched⟩, rfl⟩
    · rintro ⟨id, ⟨known, touched⟩, rfl⟩
      exact ⟨⟨id, known, rfl⟩, id, ⟨known, rfl⟩, touched⟩

theorem representative_eq_some {component : Finset Uuid} {name : String} :
    representative nodes component = some name ↔
      (∃ id ∈ component, sourceOf nodes id = some name) ∧
        ∀ id ∈ component, ∀ other, sourceOf nodes id = some other → name ≤ other := by
  have least : representative nodes component = some name ↔
      (component.biUnion fun id => (sourceOf nodes id).toFinset).min = (name : WithTop String) :=
    Iff.rfl
  rw [least]
  constructor
  · intro minimum
    constructor
    · have member := Finset.mem_of_min minimum
      simpa using member
    · intro id member other carried
      apply Finset.min_le_of_eq _ minimum
      exact Finset.mem_biUnion.mpr ⟨id, member, by simp [carried]⟩
  · rintro ⟨⟨id, member, carried⟩, lower⟩
    have present : name ∈ component.biUnion fun id => (sourceOf nodes id).toFinset :=
      Finset.mem_biUnion.mpr ⟨id, member, by simp [carried]⟩
    obtain ⟨found, minimum⟩ := Finset.min_of_mem present
    have bound := Finset.min_le_of_eq present minimum
    have foundMember := Finset.mem_of_min minimum
    obtain ⟨other, otherMember, otherCarried⟩ := Finset.mem_biUnion.mp foundMember
    have same : found = name :=
      le_antisymm bound (lower other otherMember found (by simpa using otherCarried))
    rw [minimum, same]

private theorem mem_origin_class {origin : Finset Uuid} {id owner : Uuid}
    (spec : ∀ other, other ∈ origin ↔ other ∈ nodeIds nodes ∧ sameOrigin nodes edges other owner)
    (member : id ∈ origin) (other : Uuid) :
    other ∈ origin ↔ other ∈ nodeIds nodes ∧ sameOrigin nodes edges id other := by
  have related := ((spec id).mp member).2
  rw [spec]
  refine and_congr_right fun _ => ⟨fun path => ?_, fun path => ?_⟩
  · exact (sameOrigin nodes edges).trans related ((sameOrigin nodes edges).symm path)
  · exact (sameOrigin nodes edges).trans ((sameOrigin nodes edges).symm path) related

/-- The class of a member, as the component it is. -/
private theorem exists_component (edges : List ProvEdge) {id : Uuid} (known : id ∈ nodeIds nodes) :
    ∃ origin ∈ originComponents nodes edges, id ∈ origin ∧
      ∀ other, other ∈ origin ↔ other ∈ nodeIds nodes ∧ sameOrigin nodes edges id other := by
  classical
  let origin := (nodeIds nodes).filter fun other => sameOrigin nodes edges other id
  have spec : ∀ other, other ∈ origin ↔
      other ∈ nodeIds nodes ∧ sameOrigin nodes edges other id := fun _ => Finset.mem_filter
  have own : id ∈ origin := (spec id).mpr ⟨known, (sameOrigin nodes edges).refl id⟩
  exact ⟨origin, mem_originComponents.mpr ⟨id, known, spec⟩, own, mem_origin_class spec own⟩

/-- A representative is a least label of a class, reached or not as asked. -/
theorem representative_iff (nodes : List ProvNode) (edges : List ProvEdge)
    (touches : Uuid → Prop) (tied : Prop) (name : String) :
    (∃ origin ∈ originComponents nodes edges, ((∃ id ∈ origin, touches id) ↔ tied) ∧
        representative nodes origin = some name) ↔
      ∃ id ∈ nodeIds nodes, (Reaches (sameOrigin nodes edges) (nodeIds nodes) touches id ↔ tied) ∧
        IsLeastLabel (sameOrigin nodes edges) (nodeIds nodes) (sourceOf nodes) id name := by
  have reachedBy {origin : Finset Uuid} {id : Uuid}
      (inClass : ∀ other, other ∈ origin ↔
        other ∈ nodeIds nodes ∧ sameOrigin nodes edges id other) :
      (∃ other ∈ origin, touches other) ↔
        Reaches (sameOrigin nodes edges) (nodeIds nodes) touches id := by
    constructor
    · rintro ⟨other, member, touched⟩
      have ⟨known, related⟩ := (inClass other).mp member
      exact ⟨other, known, touched, related⟩
    · rintro ⟨other, known, touched, related⟩
      exact ⟨other, (inClass other).mpr ⟨known, related⟩, touched⟩
  constructor
  · rintro ⟨origin, present, touched, least⟩
    obtain ⟨owner, _, spec⟩ := mem_originComponents.mp present
    obtain ⟨⟨id, member, carried⟩, lower⟩ := representative_eq_some.mp least
    have inClass := mem_origin_class spec member
    refine ⟨id, ((spec id).mp member).1, ?_, carried, fun other known related =>
      lower other ((inClass other).mpr ⟨known, related⟩)⟩
    rw [← reachedBy inClass, touched]
  · rintro ⟨id, known, reached, carried, lower⟩
    obtain ⟨origin, present, own, inClass⟩ := exists_component edges known
    refine ⟨origin, present, ?_, ?_⟩
    · rw [reachedBy inClass, reached]
    · apply representative_eq_some.mpr
      refine ⟨⟨id, own, carried⟩, fun other otherMember => ?_⟩
      have ⟨otherKnown, related⟩ := (inClass other).mp otherMember
      exact lower other otherKnown related

theorem exists_representative {name : String} :
    (∃ origin ∈ originComponents nodes edges, representative nodes origin = some name) ↔
      name ∈ leastLabels (sameOrigin nodes edges) (nodeIds nodes) (sourceOf nodes) := by
  have some := representative_iff nodes edges (fun _ => True) True name
  have none := representative_iff nodes edges (fun _ => True) False name
  rw [mem_leastLabels]
  grind

/-- The counted sources are the least labels of the classes. -/
theorem distinctOriginSources_eq : distinctOriginSources nodes edges =
    (leastLabels (sameOrigin nodes edges) (nodeIds nodes) (sourceOf nodes)).card := by
  rw [distinctOriginSources]
  congr 1
  ext name
  rw [List.mem_toFinset, List.mem_filterMap, exists_representative]

/-- A tie to a member is a tie to its origin. -/
theorem exists_touched_origin (edges : List ProvEdge) {touches : Uuid → Prop} {id : Uuid}
    (known : id ∈ nodeIds nodes) (touched : touches id) :
    ∃ origin ∈ originComponents nodes edges, ∃ other ∈ origin, touches other := by
  obtain ⟨origin, present, own, _⟩ := exists_component edges known
  exact ⟨origin, present, id, own, touched⟩

end Forest

end NewsAggregator.Trust
