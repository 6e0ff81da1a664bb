import NewsAggregator.Trust.Graph

/-! The dependency relation of a set of members, with `detect_edges` evaluated
over all pairs, as the reference for the edges that were stored so far. -/

namespace NewsAggregator.Trust

open Foundation

def allEdges (nodes : List ProvNode) : List ProvEdge :=
  nodes.flatMap fun node => detectEdges node nodes

/-- The edges join the two items, in either direction, by this rule. -/
def JoinedBy (edges : List ProvEdge) (a b : Uuid) (edgeType : EdgeType) : Prop :=
  ∃ edge ∈ edges, edge.edgeType = edgeType ∧
    ((edge.src = a ∧ edge.dst = b) ∨ (edge.src = b ∧ edge.dst = a))

instance (edges : List ProvEdge) (a b : Uuid) : DecidablePred (JoinedBy edges a b) :=
  fun edgeType => inferInstanceAs (Decidable (∃ edge ∈ edges, edge.edgeType = edgeType ∧ _))

theorem JoinedBy.symm {edges : List ProvEdge} {a b : Uuid} {edgeType : EdgeType}
    (joined : JoinedBy edges a b edgeType) : JoinedBy edges b a edgeType := by
  obtain ⟨edge, member, type, ends⟩ := joined
  exact ⟨edge, member, type, ends.symm⟩

theorem mem_allEdges {nodes : List ProvNode} {edge : ProvEdge} :
    edge ∈ allEdges nodes ↔ ∃ a ∈ nodes, ∃ b ∈ nodes, b.itemId ≠ a.itemId ∧
      edge.src = a.itemId ∧ edge.dst = b.itemId ∧ DependsBy a b edge.edgeType := by
  simp only [allEdges, List.mem_flatMap, mem_detectEdges]

/-- Two items are joined in the reference exactly when members of these ids depend. -/
theorem joined_allEdges {nodes : List ProvNode} {a b : Uuid} {edgeType : EdgeType} :
    JoinedBy (allEdges nodes) a b edgeType ↔ ∃ x ∈ nodes, ∃ y ∈ nodes, x.itemId = a ∧
      y.itemId = b ∧ a ≠ b ∧ DependsBy x y edgeType := by
  constructor
  · rintro ⟨edge, member, rfl, ends⟩
    obtain ⟨x, xMember, y, yMember, different, src, dst, depends⟩ := mem_allEdges.mp member
    rcases ends with ⟨rfl, rfl⟩ | ⟨rfl, rfl⟩
    · exact ⟨x, xMember, y, yMember, src.symm, dst.symm,
        fun same => different ((dst.symm.trans same.symm).trans src), depends⟩
    · exact ⟨y, yMember, x, xMember, dst.symm, src.symm,
        fun same => different ((dst.symm.trans same).trans src), dependsBy_comm.mp depends⟩
  · rintro ⟨x, xMember, y, yMember, rfl, rfl, different, depends⟩
    exact ⟨⟨x.itemId, y.itemId, edgeType⟩,
      mem_allEdges.mpr ⟨x, xMember, y, yMember, different.symm, rfl, rfl, depends⟩, rfl,
      .inl ⟨rfl, rfl⟩⟩

/-- More members and more joined pairs give a coarser relation; the direction of
an edge does not matter. -/
theorem sameOrigin_mono {nodes nodes' : List ProvNode} {edges edges' : List ProvEdge}
    (subset : nodes ⊆ nodes')
    (joined : ∀ a ∈ nodeIds nodes, ∀ b ∈ nodeIds nodes, ∀ edgeType, JoinedBy edges a b edgeType →
      JoinedBy edges' a b edgeType) {a b : Uuid} (related : sameOrigin nodes edges a b) :
    sameOrigin nodes' edges' a b := by
  have known {id : Uuid} (member : id ∈ nodeIds nodes) : id ∈ nodeIds nodes' := by
    obtain ⟨node, present, same⟩ := mem_nodeIds.mp member
    exact mem_nodeIds.mpr ⟨node, subset present, same⟩
  refine sameOrigin_le (fun a b linked => ?_) related
  cases linked with
  | @edge edge member src dst =>
    obtain ⟨other, otherMember, _, ends⟩ :=
      joined _ src _ dst edge.edgeType ⟨edge, member, rfl, .inl ⟨rfl, rfl⟩⟩
    have src := known src
    have dst := known dst
    rcases ends with ⟨sameSrc, sameDst⟩ | ⟨sameSrc, sameDst⟩
    · rw [← sameSrc] at src ⊢
      rw [← sameDst] at dst ⊢
      exact .rel _ _ (.edge otherMember src dst)
    · rw [← sameSrc] at dst ⊢
      rw [← sameDst] at src ⊢
      exact .symm _ _ (.rel _ _ (.edge otherMember dst src))
  | key aMember bMember nonempty same =>
    exact .rel _ _ (.key (subset aMember) (subset bMember) nonempty same)

/-- Edges that join all dependent pairs leave no more origins than there are. -/
theorem independentOrigins_le_allEdges {nodes : List ProvNode} {edges : List ProvEdge}
    (complete : ∀ x ∈ nodes, ∀ y ∈ nodes, x.itemId ≠ y.itemId → ∀ edgeType,
      DependsBy x y edgeType → JoinedBy edges x.itemId y.itemId edgeType) :
    independentOrigins nodes edges ≤ independentOrigins nodes (allEdges nodes) := by
  rw [independentOrigins_eq, independentOrigins_eq]
  refine classCount_mono fun a _ b _ related =>
    sameOrigin_mono (List.Subset.refl _) ?_ related
  intro a _ b _ edgeType joined
  obtain ⟨x, xMember, y, yMember, rfl, rfl, different, depends⟩ := joined_allEdges.mp joined
  exact complete x xMember y yMember different edgeType depends

section SameMembers

variable {nodes nodes' : List ProvNode} {edges edges' : List ProvEdge}

theorem nodeIds_congr (members : ∀ node, node ∈ nodes ↔ node ∈ nodes') :
    nodeIds nodes = nodeIds nodes' := by
  ext id
  simp only [mem_nodeIds, members]

theorem joined_allEdges_congr (members : ∀ node, node ∈ nodes ↔ node ∈ nodes') {a b : Uuid}
    {edgeType : EdgeType} :
    JoinedBy (allEdges nodes) a b edgeType ↔ JoinedBy (allEdges nodes') a b edgeType := by
  simp only [joined_allEdges, members]

theorem sameOrigin_congr (members : ∀ node, node ∈ nodes ↔ node ∈ nodes')
    (joined : ∀ a b edgeType, JoinedBy edges a b edgeType ↔ JoinedBy edges' a b edgeType)
    {a b : Uuid} : sameOrigin nodes edges a b ↔ sameOrigin nodes' edges' a b :=
  ⟨sameOrigin_mono (fun node => (members node).mp) fun _ _ _ _ _ => (joined _ _ _).mp,
    sameOrigin_mono (fun node => (members node).mpr) fun _ _ _ _ _ => (joined _ _ _).mpr⟩

/-- The count of origins sees the set of members and the joined pairs only. -/
theorem independentOrigins_congr (members : ∀ node, node ∈ nodes ↔ node ∈ nodes')
    (joined : ∀ a b edgeType, JoinedBy edges a b edgeType ↔ JoinedBy edges' a b edgeType) :
    independentOrigins nodes edges = independentOrigins nodes' edges' := by
  rw [independentOrigins_eq, independentOrigins_eq, ← nodeIds_congr members]
  exact classCount_congr fun _ _ _ _ => sameOrigin_congr members joined

/-- In a list of distinct ids the last node of an id is the only one. -/
theorem byId_of_mem {node : ProvNode} (distinct : (nodes.map ProvNode.itemId).Nodup)
    (member : node ∈ nodes) : byId nodes node.itemId = some node := by
  cases found : byId nodes node.itemId with
  | none =>
    have absent := List.find?_eq_none.mp found node (List.mem_reverse.mpr member)
    exact absurd (beq_self_eq_true _) absent
  | some other =>
    obtain ⟨present, same⟩ := byId_spec found
    rw [List.inj_on_of_nodup_map distinct present member same]

theorem sourceOf_congr (distinct : (nodes.map ProvNode.itemId).Nodup)
    (distinct' : (nodes'.map ProvNode.itemId).Nodup)
    (members : ∀ node, node ∈ nodes ↔ node ∈ nodes') : sourceOf nodes = sourceOf nodes' := by
  funext id
  have byIds : byId nodes id = byId nodes' id := by
    cases found : byId nodes' id with
    | some node =>
      obtain ⟨member, rfl⟩ := byId_spec found
      exact byId_of_mem distinct ((members node).mpr member)
    | none =>
      cases other : byId nodes id with
      | none => rfl
      | some node =>
        obtain ⟨member, rfl⟩ := byId_spec other
        exact nomatch found.symm.trans (byId_of_mem distinct' ((members node).mp member))
  rw [sourceOf, byIds, sourceOf]

/-- So does the count of their sources, where ids are distinct. -/
theorem distinctOriginSources_congr (distinct : (nodes.map ProvNode.itemId).Nodup)
    (distinct' : (nodes'.map ProvNode.itemId).Nodup)
    (members : ∀ node, node ∈ nodes ↔ node ∈ nodes')
    (joined : ∀ a b edgeType, JoinedBy edges a b edgeType ↔ JoinedBy edges' a b edgeType) :
    distinctOriginSources nodes edges = distinctOriginSources nodes' edges' := by
  have same : sameOrigin nodes edges = sameOrigin nodes' edges' := by
    ext a b
    exact sameOrigin_congr members joined
  rw [distinctOriginSources_eq, distinctOriginSources_eq, same, nodeIds_congr members,
    sourceOf_congr distinct distinct' members]

end SameMembers

/-- The counted sources are sources of members. -/
theorem distinctOriginSources_le (nodes : List ProvNode) (edges : List ProvEdge) :
    distinctOriginSources nodes edges ≤ (nodes.map ProvNode.source).toFinset.card := by
  unfold distinctOriginSources
  apply Finset.card_le_card
  intro name member
  obtain ⟨component, _, least⟩ := List.mem_filterMap.mp (List.mem_toFinset.mp member)
  obtain ⟨⟨id, _, carried⟩, _⟩ := representative_eq_some.mp least
  obtain ⟨node, found, source⟩ := Option.bind_eq_some_iff.mp carried
  split at source
  · cases source
  · rw [List.mem_toFinset, List.mem_map]
    exact ⟨node, (byId_spec found).1, Option.some.inj source⟩

end NewsAggregator.Trust
