import Mathlib.Data.Finset.Image
import Mathlib.Data.Fintype.Defs
import Mathlib.Data.Nat.Bitwise
import NewsAggregator.Python
import NewsAggregator.Schema.Item

/-! Provenance edges. A dependency edge between two items says that one of
them is not an independent origin of the other. -/

namespace NewsAggregator.Trust

def copyHammingMax : Nat := 6

inductive EdgeType
  | ref
  | copy
  | url
  | author
  deriving DecidableEq

instance : Fintype EdgeType where
  elems := {.ref, .copy, .url, .author}
  complete edgeType := by cases edgeType <;> decide

/-- Number of differing bits among the low 64. -/
def hamming64 (a b : Nat) : Nat :=
  ((List.range 64).filter fun bit => (a ^^^ b).testBit bit).length

/-- Postgres' `bigint` is signed, the fingerprint is not. -/
def toSigned64 (v : Nat) : Int := if 2 ^ 63 ≤ v then (v : Int) - 2 ^ 64 else v

def fromSigned64 (v : Int) : Nat := (if v < 0 then v + 2 ^ 64 else v).toNat

theorem fromSigned64_toSigned64 (v : Nat) (small : v < 2 ^ 64) :
    fromSigned64 (toSigned64 v) = v := by
  unfold fromSigned64 toSigned64
  split <;> split <;> omega

/-- The classes of outlets that carry wire copy. -/
def wireCollapseClasses : List String := ["local_news", "mainstream"]

/-- The provenance-relevant projection of a stored item. -/
structure ProvNode where
  itemId : Uuid
  authorRef : String
  parentRef : Option String
  contentHash : String
  urls : Finset String
  simhash : Nat
  source : String := ""
  sourceClass : String := ""
  wireRef : String := ""

/-- The organisation an item speaks for; empty when nothing identifies one. -/
def ProvNode.originKey (node : ProvNode) : String :=
  if node.wireRef ≠ "" ∧ node.sourceClass ∈ wireCollapseClasses then "wire:" ++ node.wireRef
  else if node.authorRef ≠ "" then node.authorRef
  else if node.sourceClass ≠ "" ∧ node.sourceClass ≠ "social" then "src:" ++ node.source
  else ""

structure ProvEdge where
  src : Uuid
  dst : Uuid
  edgeType : EdgeType
  deriving DecidableEq

/-- `a`'s non-empty parent reference is `b`'s content hash. -/
def ProvNode.refersTo (a b : ProvNode) : Prop :=
  ∃ parent, a.parentRef = some parent ∧ parent ≠ "" ∧ parent = b.contentHash

instance (a b : ProvNode) : Decidable (a.refersTo b) :=
  decidable_of_iff (a.parentRef = some b.contentHash ∧ b.contentHash ≠ "") <| by
    rw [ProvNode.refersTo]
    constructor
    · rintro ⟨same, nonempty⟩
      exact ⟨_, same, nonempty, rfl⟩
    · rintro ⟨parent, same, nonempty, rfl⟩
      exact ⟨same, nonempty⟩

def trackingPrefixes : List String := ["utm_", "fbclid", "gclid", "mc_", "ref_"]

/-- Canonical form of an upstream URL; `""` when there is none. -/
def canonicalUrl (py : Python) (url : String) : String :=
  match py.urlsplit (py.strip url) with
  | none => ""
  | some parts =>
    let host := removePrefix "www." (py.casefold parts.netloc)
    if host = "" then ""
    else
      let query := py.urlencode ((py.parseQsl parts.query).filter fun pair =>
        !startsWithAny trackingPrefixes (py.casefold pair.1))
      let path := rstripChar '/' parts.path
      host ++ path ++ (if query ≠ "" then "?" ++ query else "")

/-- The edges `detect_edges` reports for one member. -/
def edgesTo (new member : ProvNode) : List ProvEdge :=
  if member.itemId = new.itemId then []
  else
    (if new.refersTo member ∨ member.refersTo new then
      [⟨new.itemId, member.itemId, .ref⟩] else []) ++
    (if new.simhash ≠ 0 ∧ member.simhash ≠ 0 ∧
        hamming64 new.simhash member.simhash ≤ copyHammingMax then
      [⟨new.itemId, member.itemId, .copy⟩] else []) ++
    (if (new.urls ∩ member.urls).Nonempty then
      [⟨new.itemId, member.itemId, .url⟩] else []) ++
    (if new.authorRef ≠ "" ∧ new.authorRef = member.authorRef then
      [⟨new.itemId, member.itemId, .author⟩] else [])

def detectEdges (new : ProvNode) (members : List ProvNode) : List ProvEdge :=
  members.flatMap (edgesTo new)

/-- The rule behind each edge type. -/
def DependsBy (a b : ProvNode) : EdgeType → Prop
  | .ref => a.refersTo b ∨ b.refersTo a
  | .copy => a.simhash ≠ 0 ∧ b.simhash ≠ 0 ∧ hamming64 a.simhash b.simhash ≤ copyHammingMax
  | .url => (a.urls ∩ b.urls).Nonempty
  | .author => a.authorRef ≠ "" ∧ a.authorRef = b.authorRef

instance (a b : ProvNode) : DecidablePred (DependsBy a b)
  | .ref => inferInstanceAs (Decidable (_ ∨ _))
  | .copy => inferInstanceAs (Decidable (_ ∧ _))
  | .url => inferInstanceAs (Decidable (Finset.Nonempty _))
  | .author => inferInstanceAs (Decidable (_ ∧ _))

theorem hamming64_comm (a b : Nat) : hamming64 a b = hamming64 b a := by
  unfold hamming64
  rw [Nat.xor_comm]

/-- Every edge rule is symmetric, so it does not matter which item came last. -/
theorem dependsBy_comm {a b : ProvNode} {edgeType : EdgeType} :
    DependsBy a b edgeType ↔ DependsBy b a edgeType := by
  cases edgeType with
  | ref => exact or_comm
  | copy =>
    simp only [DependsBy, hamming64_comm b.simhash a.simhash]
    exact and_left_comm
  | url => simp only [DependsBy, Finset.inter_comm]
  | author =>
    constructor <;> rintro ⟨nonempty, same⟩ <;> exact ⟨same ▸ nonempty, same.symm⟩

theorem mem_edgesTo {new member : ProvNode} {edge : ProvEdge} :
    edge ∈ edgesTo new member ↔ member.itemId ≠ new.itemId ∧ edge.src = new.itemId ∧
      edge.dst = member.itemId ∧ DependsBy new member edge.edgeType := by
  obtain ⟨src, dst, edgeType⟩ := edge
  rw [edgesTo]
  split
  · rename_i same
    simp [same]
  · rename_i different
    cases edgeType <;> simp [DependsBy, different] <;> grind

theorem mem_detectEdges {new : ProvNode} {members : List ProvNode} {edge : ProvEdge} :
    edge ∈ detectEdges new members ↔ ∃ member ∈ members, member.itemId ≠ new.itemId ∧
      edge.src = new.itemId ∧ edge.dst = member.itemId ∧ DependsBy new member edge.edgeType := by
  simp only [detectEdges, List.mem_flatMap, mem_edgesTo]

end NewsAggregator.Trust
