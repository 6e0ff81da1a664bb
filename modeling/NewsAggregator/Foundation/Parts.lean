import Mathlib.Data.Finset.Disjoint
import Mathlib.Data.List.Pairwise
import Mathlib.Data.List.Perm.Basic
import NewsAggregator.Foundation.UnionFind

/-! The parts of a finite set under an equivalence, as a list. Up to their order they
are determined by it, and the components of a union-find are such parts. -/

namespace Foundation

variable {α : Type*} {r : Setoid α} {s : Finset α} {parts others : List (Finset α)}

/-- The list holds each class of the set once. -/
structure Parts (r : Setoid α) (s : Finset α) (parts : List (Finset α)) : Prop where
  nonempty : ∀ part ∈ parts, part.Nonempty
  disjoint : parts.Pairwise Disjoint
  covers : ∀ a, a ∈ s ↔ ∃ part ∈ parts, a ∈ part
  same : ∀ a ∈ s, ∀ b ∈ s, (∃ part ∈ parts, a ∈ part ∧ b ∈ part) ↔ r a b

theorem Parts.nodup (split : Parts r s parts) : parts.Nodup := by
  refine split.disjoint.imp_of_mem fun {first second} member _ apart => ?_
  rintro rfl
  obtain ⟨a, inside⟩ := split.nonempty first member
  exact Finset.disjoint_left.mp apart inside inside

/-- A point lies in one part. -/
theorem Parts.eq_of_mem (split : Parts r s parts) {first second : Finset α} {a : α}
    (firstPart : first ∈ parts) (secondPart : second ∈ parts) (inFirst : a ∈ first)
    (inSecond : a ∈ second) : first = second := by
  by_contra different
  have apart := split.disjoint.forall firstPart secondPart different
  exact Finset.disjoint_left.mp apart inFirst inSecond

/-- A part that meets a part of another list lies inside it. -/
theorem Parts.subset_of_mem (split : Parts r s parts) (other : Parts r s others)
    {part whole : Finset α} (isPart : part ∈ parts) (isWhole : whole ∈ others) {a : α}
    (inPart : a ∈ part) (inWhole : a ∈ whole) : part ⊆ whole := by
  intro b member
  have aKnown := (split.covers a).mpr ⟨part, isPart, inPart⟩
  have bKnown := (split.covers b).mpr ⟨part, isPart, member⟩
  have related := (split.same a aKnown b bKnown).mp ⟨part, isPart, inPart, member⟩
  obtain ⟨home, isHome, aHome, bHome⟩ := (other.same a aKnown b bKnown).mpr related
  rwa [other.eq_of_mem isWhole isHome inWhole aHome]

theorem Parts.mem_of_mem (split : Parts r s parts) (other : Parts r s others) {part : Finset α}
    (isPart : part ∈ parts) : part ∈ others := by
  obtain ⟨a, inPart⟩ := split.nonempty part isPart
  obtain ⟨whole, isWhole, inWhole⟩ :=
    (other.covers a).mp ((split.covers a).mpr ⟨part, isPart, inPart⟩)
  have whole_eq : part = whole := Finset.Subset.antisymm
    (split.subset_of_mem other isPart isWhole inPart inWhole)
    (other.subset_of_mem split isWhole isPart inWhole inPart)
  exact whole_eq ▸ isWhole

theorem Parts.perm (split : Parts r s parts) (other : Parts r s others) : parts.Perm others := by
  rw [List.perm_ext_iff_of_nodup split.nodup other.nodup]
  exact fun part => ⟨split.mem_of_mem other, other.mem_of_mem split⟩

namespace UnionFind

variable [DecidableEq α]

theorem Valid.disjoint_components {uf : UnionFind α} (valid : uf.Valid) :
    uf.components.Pairwise Disjoint := by
  have grouped := valid.grouped
  have names := List.pairwise_map.mp grouped.nodup
  refine List.pairwise_map.mpr (names.imp_of_mem fun {first second} isFirst isSecond apart => ?_)
  refine Finset.disjoint_left.mpr fun a inFirst inSecond => apart ?_
  exact ((grouped.filled first isFirst a).mp inFirst).2.symm.trans
    ((grouped.filled second isSecond a).mp inSecond).2

/-- The components are the parts of the keys. -/
theorem Valid.parts_components {uf : UnionFind α} (valid : uf.Valid)
    (agree : ∀ a b, uf.Same a b ↔ r a b) : Parts r uf.keys.toFinset uf.components := by
  refine ⟨?_, valid.disjoint_components, ?_, ?_⟩
  · intro part isPart
    obtain ⟨x, key, rfl⟩ := (valid.mem_components part).mp isPart
    exact ⟨x, Finset.mem_filter.mpr ⟨List.mem_toFinset.mpr key, rfl⟩⟩
  · intro a
    constructor
    · intro member
      refine ⟨_, (valid.mem_components _).mpr ⟨a, List.mem_toFinset.mp member, rfl⟩, ?_⟩
      exact Finset.mem_filter.mpr ⟨member, rfl⟩
    · rintro ⟨part, isPart, inside⟩
      obtain ⟨x, _, rfl⟩ := (valid.mem_components part).mp isPart
      exact (Finset.mem_filter.mp inside).1
  · intro a aMember b bMember
    rw [← agree]
    constructor
    · rintro ⟨part, isPart, aInside, bInside⟩
      obtain ⟨x, _, rfl⟩ := (valid.mem_components part).mp isPart
      exact (Finset.mem_filter.mp aInside).2.trans (Finset.mem_filter.mp bInside).2.symm
    · intro same
      refine ⟨_, (valid.mem_components _).mpr ⟨a, List.mem_toFinset.mp aMember, rfl⟩, ?_, ?_⟩
      · exact Finset.mem_filter.mpr ⟨aMember, rfl⟩
      · exact Finset.mem_filter.mpr ⟨bMember, same.symm⟩

end UnionFind

end Foundation
