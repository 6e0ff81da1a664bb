import NewsAggregator.Trust.Graph

/-! What one more node, with the edges `detect_edges` reports from it, does to
the two counts the corroboration gate reads. -/

namespace NewsAggregator.Trust

open Foundation

/-- An edge list within the members. -/
def EdgesOver (nodes : List ProvNode) (edges : List ProvEdge) : Prop :=
  ∀ edge ∈ edges, edge.src ∈ nodeIds nodes ∧ edge.dst ∈ nodeIds nodes

/-- The new node is tied to the member: by a detected edge or one origin key. -/
def Touches (nodes : List ProvNode) (new : ProvNode) (id : Uuid) : Prop :=
  (∃ edge ∈ detectEdges new nodes, edge.dst = id) ∨
    ∃ member ∈ nodes, member.itemId = id ∧ new.originKey ≠ "" ∧ member.originKey = new.originKey

instance (nodes : List ProvNode) (new : ProvNode) : DecidablePred (Touches nodes new) :=
  fun _ => inferInstanceAs (Decidable (_ ∨ _))

/-- How many existing origins the new node is tied to. -/
def attachedOrigins (nodes : List ProvNode) (edges : List ProvEdge) (new : ProvNode) : Nat :=
  ((originComponents nodes edges).filter fun origin => ∃ id ∈ origin, Touches nodes new id).length

/-- The new node's source represents no origin yet, sorts before the
representative of every origin it is tied to, and each of those also
represents an origin it is not tied to. -/
def Displaces (nodes : List ProvNode) (edges : List ProvEdge) (new : ProvNode) : Prop :=
  new.source ≠ "" ∧
    (∀ origin ∈ originComponents nodes edges, representative nodes origin ≠ some new.source) ∧
    ∀ origin ∈ originComponents nodes edges, (∃ id ∈ origin, Touches nodes new id) →
      ∀ name, representative nodes origin = some name → new.source < name ∧
        ∃ other ∈ originComponents nodes edges,
          (∀ id ∈ other, ¬ Touches nodes new id) ∧ representative nodes other = some name

section Growth

variable {nodes : List ProvNode} {edges : List ProvEdge} {new : ProvNode}

theorem Touches.known {id : Uuid} (touches : Touches nodes new id) : id ∈ nodeIds nodes := by
  rcases touches with ⟨edge, reported, rfl⟩ | ⟨member, present, rfl, _⟩
  · obtain ⟨member, present, _, _, dst, _⟩ := mem_detectEdges.mp reported
    rw [dst]
    exact itemId_mem present
  · exact itemId_mem present

theorem nodeIds_append : nodeIds (nodes ++ [new]) = insert new.itemId (nodeIds nodes) := by
  ext id
  simp [nodeIds]

private theorem nodeIds_subset : nodeIds nodes ⊆ nodeIds (nodes ++ [new]) := by
  rw [nodeIds_append]
  exact Finset.subset_insert _ _

/-- The generators of the members, and the ties of the new node. -/
private def generators (nodes : List ProvNode) (edges : List ProvEdge) (new : ProvNode)
    (a b : Uuid) : Prop :=
  Linked nodes edges a b ∨ (a = new.itemId ∧ b ∈ nodeIds nodes ∧ Touches nodes new b)

private theorem related_of_linked (within : EdgesOver nodes edges) {a b : Uuid}
    (linked : Linked (nodes ++ [new]) (edges ++ detectEdges new nodes) a b) :
    Relation.EqvGen.setoid (generators nodes edges new) a b := by
  let hub := Relation.EqvGen.setoid (generators nodes edges new)
  cases linked with
  | @edge edge member src dst =>
    rcases List.mem_append.mp member with old | reported
    · exact .rel _ _ (.inl (.edge old (within edge old).1 (within edge old).2))
    · obtain ⟨target, present, _, srcEq, dstEq, _⟩ := mem_detectEdges.mp reported
      refine .rel _ _ (.inr ⟨srcEq, ?_, .inl ⟨edge, reported, rfl⟩⟩)
      rw [dstEq]
      exact itemId_mem present
  | @key a b aMember bMember nonempty same =>
    rcases List.mem_append.mp aMember with aOld | aNew
    · rcases List.mem_append.mp bMember with bOld | bNew
      · exact .rel _ _ (.inl (.key aOld bOld nonempty same))
      · rw [List.mem_singleton] at bNew
        subst bNew
        exact hub.symm (.rel _ _ (.inr ⟨rfl, itemId_mem aOld,
          .inr ⟨a, aOld, rfl, same ▸ nonempty, same⟩⟩))
    · rw [List.mem_singleton] at aNew
      subst aNew
      rcases List.mem_append.mp bMember with bOld | bNew
      · exact .rel _ _ (.inr ⟨rfl, itemId_mem bOld, .inr ⟨b, bOld, rfl, nonempty, same.symm⟩⟩)
      · rw [List.mem_singleton] at bNew
        subst bNew
        exact hub.refl _

private theorem linked_of_generators {a b : Uuid} (generated : generators nodes edges new a b) :
    Linked (nodes ++ [new]) (edges ++ detectEdges new nodes) a b := by
  rcases generated with linked | ⟨rfl, _, touches⟩
  · cases linked with
    | edge member src dst =>
      exact .edge (List.mem_append_left _ member) (nodeIds_subset src) (nodeIds_subset dst)
    | key aMember bMember nonempty same =>
      exact .key (List.mem_append_left _ aMember) (List.mem_append_left _ bMember) nonempty same
  · have own : new ∈ nodes ++ [new] := List.mem_append_right _ (List.mem_singleton_self new)
    rcases touches with ⟨edge, reported, rfl⟩ | ⟨member, present, rfl, nonempty, same⟩
    · obtain ⟨target, present, _, srcEq, dstEq, _⟩ := mem_detectEdges.mp reported
      rw [← srcEq]
      apply Linked.edge (List.mem_append_right _ reported)
      · rw [srcEq]
        exact itemId_mem own
      · rw [dstEq]
        exact itemId_mem (List.mem_append_left _ present)
    · exact .key own (List.mem_append_left _ present) nonempty same.symm

/-- All new generators start at the new node. -/
private theorem sameOrigin_append (within : EdgesOver nodes edges) :
    sameOrigin (nodes ++ [new]) (edges ++ detectEdges new nodes) =
      Relation.EqvGen.setoid (generators nodes edges new) := by
  apply Setoid.ext
  intro a b
  constructor
  · exact sameOrigin_le fun _ _ linked => related_of_linked within linked
  · exact Relation.EqvGen.mono (fun _ _ => linked_of_generators) a b

theorem joins_append (fresh : new.itemId ∉ nodeIds nodes) (within : EdgesOver nodes edges) :
    Joins (sameOrigin nodes edges) (sameOrigin (nodes ++ [new]) (edges ++ detectEdges new nodes))
      (nodeIds nodes) new.itemId (Touches nodes new) := by
  rw [sameOrigin_append within]
  apply Joins.of_generators fresh
  intro a b linked
  have known : a ∈ nodeIds nodes ∧ b ∈ nodeIds nodes := by
    cases linked with
    | edge _ src dst => exact ⟨src, dst⟩
    | key aMember bMember _ _ => exact ⟨itemId_mem aMember, itemId_mem bMember⟩
  exact ⟨fun same => fresh (same ▸ known.1), fun same => fresh (same ▸ known.2)⟩

/-- The new node merges the origins it is tied to and counts as one itself. -/
theorem independentOrigins_append (fresh : new.itemId ∉ nodeIds nodes)
    (within : EdgesOver nodes edges) :
    independentOrigins (nodes ++ [new]) (edges ++ detectEdges new nodes) +
      attachedOrigins nodes edges new = independentOrigins nodes edges + 1 := by
  rw [independentOrigins_eq, independentOrigins_eq, attachedOrigins, countP_originComponents,
    nodeIds_append]
  exact (joins_append fresh within).classCount

private theorem sourceOf_append (fresh : new.itemId ∉ nodeIds nodes) :
    sourceOf (nodes ++ [new]) new.itemId = (if new.source = "" then none else some new.source) ∧
      ∀ id ∈ nodeIds nodes, sourceOf nodes id = sourceOf (nodes ++ [new]) id := by
  constructor
  · simp [sourceOf, byId]
  · intro id known
    have different : new.itemId ≠ id := by
      rintro rfl
      exact fresh known
    simp [sourceOf, byId, different]

/-- The condition on components is the condition on classes. -/
private theorem displaces_iff : Displaces nodes edges new ↔
    Foundation.Displaces (sameOrigin nodes edges) (nodeIds nodes) (Touches nodes new)
      (sourceOf nodes) (if new.source = "" then none else some new.source) := by
  have tied (name : String) :=
    representative_iff nodes edges (Touches nodes new) True name
  have free (name : String) :=
    representative_iff nodes edges (Touches nodes new) False name
  simp only [iff_true, iff_false] at tied free
  constructor
  · rintro ⟨nonempty, unused, undercuts⟩
    refine ⟨new.source, by simp [nonempty], ?_, ?_⟩
    · rw [← exists_representative]
      rintro ⟨origin, present, least⟩
      exact unused origin present least
    · intro id known reached name least
      obtain ⟨origin, present, touched, named⟩ := (tied name).mpr ⟨id, known, reached, least⟩
      obtain ⟨below, other, otherPresent, untouched, otherNamed⟩ :=
        undercuts origin present touched name named
      refine ⟨below, (free name).mp ⟨other, otherPresent, ?_, otherNamed⟩⟩
      rintro ⟨otherId, member, touches⟩
      exact untouched otherId member touches
  · rintro ⟨name, carried, unused, undercuts⟩
    have nonempty : new.source ≠ "" := by
      intro empty
      simp [empty] at carried
    have same : new.source = name := by simpa [nonempty] using carried
    subst name
    refine ⟨nonempty, ?_, ?_⟩
    · intro origin present least
      rw [← exists_representative] at unused
      exact unused ⟨origin, present, least⟩
    · intro origin present touched name named
      obtain ⟨id, known, reached, least⟩ := (tied name).mp ⟨origin, present, touched, named⟩
      obtain ⟨below, otherId, otherKnown, unreached, otherLeast⟩ :=
        undercuts id known reached name least
      obtain ⟨other, otherPresent, untouched, otherNamed⟩ :=
        (free name).mpr ⟨otherId, otherKnown, unreached, otherLeast⟩
      exact ⟨below, other, otherPresent,
        fun id member touches => untouched ⟨id, member, touches⟩, otherNamed⟩

theorem distinctOriginSources_append_le_iff (fresh : new.itemId ∉ nodeIds nodes)
    (within : EdgesOver nodes edges) :
    distinctOriginSources (nodes ++ [new]) (edges ++ detectEdges new nodes) ≤
      distinctOriginSources nodes edges ↔ ¬ Displaces nodes edges new := by
  obtain ⟨own, agree⟩ := sourceOf_append fresh
  have joined := (joins_append fresh within).leastLabels_card_le_iff
    (sourceOf (nodes ++ [new]))
  rw [own, ← leastLabels_congr agree] at joined
  rw [distinctOriginSources_eq, distinctOriginSources_eq, nodeIds_append, joined, displaces_iff]
  have classes : Foundation.Displaces (sameOrigin nodes edges) (nodeIds nodes) (Touches nodes new)
      (sourceOf (nodes ++ [new])) (if new.source = "" then none else some new.source) ↔
      Foundation.Displaces (sameOrigin nodes edges) (nodeIds nodes) (Touches nodes new)
        (sourceOf nodes) (if new.source = "" then none else some new.source) := by
    unfold Foundation.Displaces
    rw [leastLabels_congr agree]
    refine exists_congr fun name => and_congr_right fun _ => and_congr_right fun _ => ?_
    refine forall₃_congr fun id known _ => forall_congr' fun least => ?_
    rw [isLeastLabel_congr agree known]
    refine imp_congr_right fun _ => and_congr_right fun _ => exists_congr fun other => ?_
    refine and_congr_right fun otherKnown => and_congr_right fun _ => ?_
    rw [isLeastLabel_congr agree otherKnown]
  exact not_congr classes

private theorem attachedOrigins_pos (edges : List ProvEdge) {id : Uuid}
    (touches : Touches nodes new id) :
    0 < attachedOrigins nodes edges new := by
  rw [attachedOrigins, List.length_pos_iff_exists_mem]
  obtain ⟨origin, present, tied⟩ := exists_touched_origin edges touches.known touches
  exact ⟨origin, List.mem_filter.mpr ⟨present, decide_eq_true tied⟩⟩

end Growth

/-- A social post that is read only through its links. -/
def socialPost (id : Uuid) (author source : String) (parent : Option String)
    (urls : Finset String) : ProvNode :=
  { itemId := id, authorRef := author, parentRef := parent, contentHash := "post:" ++ author,
    urls, simhash := 0, source, sourceClass := "social" }

/-- Two unrelated posts on one platform. -/
def twoToots : List ProvNode :=
  [socialPost 1 "ann" "mastodon" none {"outlet.example/1"},
    socialPost 2 "bob" "mastodon" none {"outlet.example/2"}]

def replyFrom (source : String) : ProvNode := socialPost 3 "eve" source (some "post:ann") ∅

def roundup : ProvNode :=
  socialPost 3 "eve" "mastodon" none {"outlet.example/1", "outlet.example/2"}

/-- A dependent node forges no evidence, unless it displaces a representative. -/
theorem amplification_iff (nodes : List ProvNode) (edges : List ProvEdge) (new : ProvNode)
    (fresh : new.itemId ∉ nodeIds nodes) (within : EdgesOver nodes edges)
    (dependent : ∃ id, Touches nodes new id) :
    (independentOrigins (nodes ++ [new]) (edges ++ detectEdges new nodes) ≤
        independentOrigins nodes edges ∧
      distinctOriginSources (nodes ++ [new]) (edges ++ detectEdges new nodes) ≤
        distinctOriginSources nodes edges) ↔ ¬ Displaces nodes edges new := by
  obtain ⟨id, touches⟩ := dependent
  have attached := attachedOrigins_pos edges touches
  have count := independentOrigins_append fresh within
  rw [distinctOriginSources_append_le_iff fresh within]
  exact and_iff_right (by omega)

theorem amplification_same_platform :
    (independentOrigins (twoToots ++ [replyFrom "mastodon"])
          ([] ++ detectEdges (replyFrom "mastodon") twoToots) ≤ independentOrigins twoToots [] ∧
      distinctOriginSources (twoToots ++ [replyFrom "mastodon"])
          ([] ++ detectEdges (replyFrom "mastodon") twoToots) ≤
        distinctOriginSources twoToots []) ↔
      ¬ Displaces twoToots [] (replyFrom "mastodon") :=
  amplification_iff twoToots [] (replyFrom "mastodon") (by decide) (by simp [EdgesOver])
    ⟨1, by decide⟩

/-- A reply from a platform that sorts first forges a second source. -/
theorem amplification_forges_source :
    (replyFrom "bluesky").itemId ∉ nodeIds twoToots ∧ EdgesOver twoToots [] ∧
      Touches twoToots (replyFrom "bluesky") 1 ∧
      ¬ distinctOriginSources (twoToots ++ [replyFrom "bluesky"])
          ([] ++ detectEdges (replyFrom "bluesky") twoToots) ≤ distinctOriginSources twoToots [] :=
  ⟨by decide, by simp [EdgesOver], by decide, by decide⟩

/-- A new member lowers the origin count exactly when it bridges at least two
existing origins, by one less than their number. -/
theorem independentOrigins_new_member (nodes : List ProvNode) (edges : List ProvEdge)
    (new : ProvNode) (fresh : new.itemId ∉ nodeIds nodes) (within : EdgesOver nodes edges) :
    independentOrigins (nodes ++ [new]) (edges ++ detectEdges new nodes) +
        attachedOrigins nodes edges new = independentOrigins nodes edges + 1 ∧
      (independentOrigins nodes edges ≤
          independentOrigins (nodes ++ [new]) (edges ++ detectEdges new nodes) ↔
        attachedOrigins nodes edges new ≤ 1) := by
  have count := independentOrigins_append fresh within
  exact ⟨count, by omega⟩

theorem independentOrigins_reply :
    independentOrigins (twoToots ++ [replyFrom "mastodon"])
          ([] ++ detectEdges (replyFrom "mastodon") twoToots) +
        attachedOrigins twoToots [] (replyFrom "mastodon") = independentOrigins twoToots [] + 1 ∧
      (independentOrigins twoToots [] ≤ independentOrigins (twoToots ++ [replyFrom "mastodon"])
          ([] ++ detectEdges (replyFrom "mastodon") twoToots) ↔
        attachedOrigins twoToots [] (replyFrom "mastodon") ≤ 1) :=
  independentOrigins_new_member twoToots [] (replyFrom "mastodon") (by decide) (by simp [EdgesOver])

/-- One post that links both stories leaves one origin of two. -/
theorem independentOrigins_roundup :
    roundup.itemId ∉ nodeIds twoToots ∧ EdgesOver twoToots [] ∧
      ¬ independentOrigins twoToots [] ≤
        independentOrigins (twoToots ++ [roundup]) ([] ++ detectEdges roundup twoToots) :=
  ⟨by decide, by simp [EdgesOver], by decide⟩

end NewsAggregator.Trust
