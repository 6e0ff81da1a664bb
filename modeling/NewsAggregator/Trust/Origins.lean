import NewsAggregator.Foundation.Parts
import NewsAggregator.Trust.AllPairs

/-! The origins of a Story as parts of its members: they depend on which members and
edges there are, not on their order or on the direction of an edge. -/

namespace NewsAggregator.Trust

open Foundation

variable {nodes others : List ProvNode} {edges redrawn : List ProvEdge}

/-- The edge from the other end. -/
def ProvEdge.swap (edge : ProvEdge) : ProvEdge := { edge with src := edge.dst, dst := edge.src }

/-- Some edges are swapped, and then all are listed in another order. -/
def Redrawn (edges redrawn : List ProvEdge) : Prop :=
  ∃ turned, List.Forall₂ (fun edge other => other = edge ∨ other = edge.swap) edges turned ∧
    turned.Perm redrawn

/-- Every entry has a partner in the other list. -/
theorem exists_partner {α β : Type*} {pairs : α → β → Prop} {xs : List α} {ys : List β}
    (each : List.Forall₂ pairs xs ys) {x : α} (member : x ∈ xs) : ∃ y ∈ ys, pairs x y := by
  induction each with
  | nil => exact absurd member List.not_mem_nil
  | cons pair _ ih =>
    rcases List.mem_cons.mp member with rfl | old
    · exact ⟨_, List.mem_cons_self, pair⟩
    · obtain ⟨y, present, later⟩ := ih old
      exact ⟨y, List.mem_cons_of_mem _ present, later⟩

theorem joinedBy_of_redrawn (drawn : ∀ edge ∈ edges, edge ∈ redrawn ∨ edge.swap ∈ redrawn)
    {a b : Uuid} {edgeType : EdgeType} (joined : JoinedBy edges a b edgeType) :
    JoinedBy redrawn a b edgeType := by
  obtain ⟨edge, member, sameType, ends⟩ := joined
  rcases drawn edge member with kept | turned
  · exact ⟨edge, kept, sameType, ends⟩
  · refine ⟨edge.swap, turned, sameType, ?_⟩
    rcases ends with ⟨src, dst⟩ | ⟨src, dst⟩
    · exact .inr ⟨dst, src⟩
    · exact .inl ⟨dst, src⟩

/-- What the edges join does not change. -/
theorem Redrawn.joinedBy_iff (drawn : Redrawn edges redrawn) (a b : Uuid) (edgeType : EdgeType) :
    JoinedBy edges a b edgeType ↔ JoinedBy redrawn a b edgeType := by
  obtain ⟨turned, each, order⟩ := drawn
  constructor
  · refine joinedBy_of_redrawn fun edge member => ?_
    obtain ⟨other, present, same⟩ := exists_partner each member
    rcases same with rfl | rfl
    · exact .inl (order.subset present)
    · exact .inr (order.subset present)
  · refine joinedBy_of_redrawn fun edge member => ?_
    obtain ⟨other, present, same⟩ := exists_partner each.flip (order.symm.subset member)
    rcases same with rfl | rfl
    · exact .inl present
    · exact .inr present

theorem Redrawn.sameOrigin_eq (drawn : Redrawn edges redrawn) (order : nodes.Perm others) :
    sameOrigin nodes edges = sameOrigin others redrawn := by
  ext a b
  exact sameOrigin_congr (fun _ => order.mem_iff) drawn.joinedBy_iff

/-- The components are the parts of the members under `sameOrigin`. -/
theorem parts_originComponents (nodes : List ProvNode) (edges : List ProvEdge) :
    Parts (sameOrigin nodes edges) (nodeIds nodes) (originComponents nodes edges) := by
  obtain ⟨valid, _, same⟩ := originForest_spec nodes edges
  rw [originComponents]
  split
  · rename_i empty
    rw [List.isEmpty_iff.mp empty]
    exact ⟨by simp, .nil, by simp [nodeIds], by simp [nodeIds]⟩
  · rw [← forest_keys]
    exact valid.parts_components same

/-- `sameOrigin` is the smallest equivalence that holds what is linked. -/
theorem isLeast_sameOrigin (nodes : List ProvNode) (edges : List ProvEdge) :
    IsLeast {r : Setoid Uuid | ∀ a b, Linked nodes edges a b → r a b} (sameOrigin nodes edges) :=
  ⟨fun a b linked => .rel a b linked, fun _ holds _ _ related => sameOrigin_le holds related⟩

/-- The components are the classes of the smallest equivalence that holds the links, each
once; they are the same however the members and edges are listed; and the loop of `find`
ends on every dictionary, in what `find` returns. -/
theorem origins_exact (nodes others : List ProvNode) (edges redrawn : List ProvEdge)
    (order : nodes.Perm others) (drawn : Redrawn edges redrawn) :
    (Parts (sameOrigin nodes edges) (nodeIds nodes) (originComponents nodes edges) ∧
      IsLeast {r : Setoid Uuid | ∀ a b, Linked nodes edges a b → r a b}
        (sameOrigin nodes edges)) ∧
    ((originComponents nodes edges).Perm (originComponents others redrawn) ∧
      independentOrigins nodes edges = independentOrigins others redrawn) ∧
    ∀ uf : UnionFind Uuid, uf.Reachable → ∀ id ∈ uf.keys, ∀ result,
      UnionFind.FindRuns uf id result ↔ result = uf.find id := by
  have parts := parts_originComponents nodes edges
  have perm : (originComponents nodes edges).Perm (originComponents others redrawn) := by
    have other := parts_originComponents others redrawn
    rw [← drawn.sameOrigin_eq order, ← nodeIds_congr fun _ => order.mem_iff] at other
    exact parts.perm other
  refine ⟨⟨parts, isLeast_sameOrigin nodes edges⟩, ⟨perm, perm.length_eq⟩, ?_⟩
  intro uf reachable id _ result
  have runs := reachable.valid.findRuns id
  constructor
  · exact fun other => other.unique runs
  · rintro rfl
    exact runs

/-- Two members, and an edge between them and one to an unknown item, drawn both ways. -/
theorem origins_exact_pair :
    let first : ProvNode := ⟨1, "", none, "a", ∅, 0, "", "social", ""⟩
    let second : ProvNode := ⟨2, "", none, "b", ∅, 0, "", "social", ""⟩
    let known : ProvEdge := ⟨1, 2, .copy⟩
    let foreign : ProvEdge := ⟨1, 3, .ref⟩
    (originComponents [second, first] [foreign, known.swap]).Perm [{1, 2}] := by
  intro first second known foreign
  have order : [first, second].Perm [second, first] := List.Perm.swap _ _ _
  have drawn : Redrawn [known, foreign] [foreign, known.swap] :=
    ⟨[known.swap, foreign], .cons (.inr rfl) (.cons (.inl rfl) .nil), List.Perm.swap _ _ _⟩
  have parts : originComponents [first, second] [known, foreign] = [{1, 2}] := by decide
  exact parts ▸ (origins_exact _ _ _ _ order drawn).2.1.1.symm

end NewsAggregator.Trust
