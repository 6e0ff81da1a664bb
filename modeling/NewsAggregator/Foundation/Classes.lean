import Mathlib.Data.Finset.Card
import Mathlib.Data.Finset.Image
import Mathlib.Data.Finset.Lattice.Fold
import Mathlib.Data.Finset.Max
import Mathlib.Data.Finset.Option
import Mathlib.Data.Finset.Union
import Mathlib.Data.Setoid.Basic
import Mathlib.Logic.Relation

/-! Counting the classes of an equivalence on a finite set, and what happens
to the count and to the least label of each class when one point joins. -/

namespace Foundation

variable {α β : Type*}

open Classical in
/-- How many classes of `r` meet the finite set `s`. -/
noncomputable def classCount (r : Setoid α) (s : Finset α) : Nat :=
  (s.image (Quotient.mk r)).card

/-- One member for every class of `r` that meets `s`. -/
structure Transversal (r : Setoid α) (s t : Finset α) : Prop where
  inside : t ⊆ s
  apart : ∀ a ∈ t, ∀ b ∈ t, r a b → a = b
  covers : ∀ a ∈ s, ∃ b ∈ t, r a b

section Counting

variable {r r' : Setoid α} {s t : Finset α}

theorem Transversal.exists (r : Setoid α) (s : Finset α) : ∃ t, Transversal r s t := by
  classical
  induction s using Finset.induction_on with
  | empty => exact ⟨∅, by simp, by simp, by simp⟩
  | insert a s fresh ih =>
    obtain ⟨t, transversal⟩ := ih
    by_cases covered : ∃ b ∈ t, r a b
    · refine ⟨t, transversal.inside.trans (Finset.subset_insert a s), transversal.apart, ?_⟩
      intro c member
      rcases Finset.mem_insert.mp member with rfl | old
      · exact covered
      · exact transversal.covers c old
    · push Not at covered
      refine ⟨insert a t, Finset.insert_subset_insert a transversal.inside, ?_, ?_⟩
      · intro b bMember c cMember related
        rcases Finset.mem_insert.mp bMember with rfl | bOld
        · rcases Finset.mem_insert.mp cMember with rfl | cOld
          · rfl
          · exact absurd related (covered c cOld)
        · rcases Finset.mem_insert.mp cMember with rfl | cOld
          · exact absurd (r.symm related) (covered b bOld)
          · exact transversal.apart b bOld c cOld related
      · intro c member
        rcases Finset.mem_insert.mp member with rfl | old
        · exact ⟨c, Finset.mem_insert_self c t, r.refl c⟩
        · obtain ⟨b, present, related⟩ := transversal.covers c old
          exact ⟨b, Finset.mem_insert_of_mem present, related⟩

/-- A labelling that separates exactly the classes has one label a class. -/
theorem Transversal.card_image [DecidableEq β] (transversal : Transversal r s t) (label : α → β)
    (separates : ∀ a ∈ s, ∀ b ∈ s, label a = label b ↔ r a b) : (s.image label).card = t.card := by
  have same : s.image label = t.image label := by
    apply Finset.Subset.antisymm
    · intro b member
      obtain ⟨a, present, rfl⟩ := Finset.mem_image.mp member
      obtain ⟨c, chosen, related⟩ := transversal.covers a present
      exact Finset.mem_image.mpr ⟨c, chosen,
        ((separates a present c (transversal.inside chosen)).mpr related).symm⟩
    · exact Finset.image_subset_image transversal.inside
  rw [same]
  apply Finset.card_image_of_injOn
  intro a aMember b bMember equal
  exact transversal.apart a aMember b bMember
    ((separates a (transversal.inside aMember) b (transversal.inside bMember)).mp equal)

theorem Transversal.card (transversal : Transversal r s t) : classCount r s = t.card := by
  classical
  exact transversal.card_image _ (fun a _ b _ => Quotient.eq)

theorem classCount_eq_image [DecidableEq β] (label : α → β)
    (separates : ∀ a ∈ s, ∀ b ∈ s, label a = label b ↔ r a b) :
    classCount r s = (s.image label).card := by
  obtain ⟨t, transversal⟩ := Transversal.exists r s
  rw [transversal.card, transversal.card_image label separates]

@[simp] theorem classCount_singleton (a : α) : classCount r {a} = 1 := by
  simp [classCount]

/-- Only the relation between members counts. -/
theorem classCount_congr (agree : ∀ a ∈ s, ∀ b ∈ s, r a b ↔ r' a b) :
    classCount r s = classCount r' s := by
  obtain ⟨t, transversal⟩ := Transversal.exists r s
  have other : Transversal r' s t := by
    refine ⟨transversal.inside, ?_, ?_⟩
    · intro a aMember b bMember related
      exact transversal.apart a aMember b bMember
        ((agree a (transversal.inside aMember) b (transversal.inside bMember)).mpr related)
    · intro a member
      obtain ⟨b, present, related⟩ := transversal.covers a member
      exact ⟨b, present, (agree a member b (transversal.inside present)).mp related⟩
  rw [transversal.card, other.card]

/-- Pairwise unrelated members lie in different classes. -/
theorem card_le_classCount (inside : t ⊆ s) (apart : ∀ a ∈ t, ∀ b ∈ t, r a b → a = b) :
    t.card ≤ classCount r s := by
  classical
  rw [classCount, ← Finset.card_image_of_injOn (f := Quotient.mk r) (s := t)]
  · exact Finset.card_le_card (Finset.image_subset_image inside)
  · intro a aMember b bMember equal
    exact apart a aMember b bMember (Quotient.eq.mp equal)

/-- A coarser equivalence has no more classes. -/
theorem classCount_mono (finer : ∀ a ∈ s, ∀ b ∈ s, r a b → r' a b) :
    classCount r' s ≤ classCount r s := by
  obtain ⟨t, transversal⟩ := Transversal.exists r' s
  rw [transversal.card]
  apply card_le_classCount transversal.inside
  intro a aMember b bMember related
  exact transversal.apart a aMember b bMember
    (finer a (transversal.inside aMember) b (transversal.inside bMember) related)

end Counting

/-! One new point `x`, related to the members it touches. -/

/-- `x` reaches `a` through some member it touches. -/
def Reaches (r : Setoid α) (s : Finset α) (touches : α → Prop) (a : α) : Prop :=
  ∃ c ∈ s, touches c ∧ r a c

/-- `r'` on `s` with `x` is `r` on `s` with everything `x` reaches merged. -/
structure Joins (r r' : Setoid α) (s : Finset α) (x : α) (touches : α → Prop) : Prop where
  fresh : x ∉ s
  old : ∀ a ∈ s, ∀ b ∈ s,
    r' a b ↔ r a b ∨ (Reaches r s touches a ∧ Reaches r s touches b)
  new : ∀ a ∈ s, r' x a ↔ Reaches r s touches a

section Joining

variable {r r' : Setoid α} {s : Finset α} {x : α} {touches : α → Prop}

theorem Reaches.of_related {a b : α} (reaches : Reaches r s touches a) (related : r a b) :
    Reaches r s touches b := by
  obtain ⟨c, member, touched, path⟩ := reaches
  exact ⟨c, member, touched, r.trans (r.symm related) path⟩

section Generated

variable {generator : α → α → Prop}

/-- A point that no generator mentions is in a class of its own. -/
private theorem alone_of_inside (inside : ∀ a b, generator a b → a ≠ x ∧ b ≠ x) {a b : α}
    (related : Relation.EqvGen.setoid generator a b) : a = x ↔ b = x := by
  induction related with
  | rel a b edge =>
    have ⟨aOther, bOther⟩ := inside a b edge
    simp [aOther, bOther]
  | refl a => rfl
  | symm a b _ ih => exact ih.symm
  | trans a b c _ _ first second => exact first.trans second

/-- What the new generators relate: what was related, or what is in the class of `x`. -/
private theorem related_or_merged (inside : ∀ a b, generator a b → a ≠ x ∧ b ≠ x) {a b : α}
    (related : Relation.EqvGen.setoid
      (fun a b => generator a b ∨ (a = x ∧ b ∈ s ∧ touches b)) a b) :
    Relation.EqvGen.setoid generator a b ∨
      ((a = x ∨ Reaches (Relation.EqvGen.setoid generator) s touches a) ∧
        (b = x ∨ Reaches (Relation.EqvGen.setoid generator) s touches b)) := by
  let r := Relation.EqvGen.setoid generator
  induction related with
  | rel a b edge =>
    rcases edge with old | ⟨rfl, member, touched⟩
    · exact .inl (.rel a b old)
    · exact .inr ⟨.inl rfl, .inr ⟨b, member, touched, r.refl b⟩⟩
  | refl a => exact .inl (r.refl a)
  | symm a b _ ih =>
    rcases ih with old | ⟨left, right⟩
    · exact .inl (r.symm old)
    · exact .inr ⟨right, left⟩
  | trans a b c _ _ first second =>
    rcases first with old | ⟨left, middle⟩
    · rcases second with old' | ⟨middle, right⟩
      · exact .inl (r.trans old old')
      · refine .inr ⟨?_, right⟩
        rcases middle with same | reaches
        · exact .inl ((alone_of_inside inside old).mpr same)
        · exact .inr (reaches.of_related (r.symm old))
    · rcases second with old' | ⟨_, right⟩
      · refine .inr ⟨left, ?_⟩
        rcases middle with same | reaches
        · exact .inl ((alone_of_inside inside old').mp same)
        · exact .inr (reaches.of_related old')
      · exact .inr ⟨left, right⟩

/-- Generated equivalences: the new generators all start at the new point. -/
theorem Joins.of_generators (fresh : x ∉ s) (inside : ∀ a b, generator a b → a ≠ x ∧ b ≠ x) :
    Joins (Relation.EqvGen.setoid generator)
      (Relation.EqvGen.setoid fun a b => generator a b ∨ (a = x ∧ b ∈ s ∧ touches b)) s x
      touches := by
  let r := Relation.EqvGen.setoid generator
  let r' := Relation.EqvGen.setoid fun a b => generator a b ∨ (a = x ∧ b ∈ s ∧ touches b)
  have finer : ∀ a b, r a b → r' a b := fun a b related =>
    Relation.EqvGen.mono (fun _ _ edge => Or.inl edge) a b related
  have hub : ∀ a, Reaches r s touches a → r' x a := by
    intro a reaches
    obtain ⟨c, member, touched, path⟩ := reaches
    exact r'.trans (.rel x c (.inr ⟨rfl, member, touched⟩)) (r'.symm (finer a c path))
  have other : ∀ a ∈ s, a ≠ x := by
    intro a member same
    exact fresh (same ▸ member)
  refine ⟨fresh, ?_, ?_⟩
  · intro a aMember b bMember
    constructor
    · intro related
      rcases related_or_merged inside related with old | ⟨left, right⟩
      · exact .inl old
      · exact .inr ⟨left.resolve_left (other a aMember), right.resolve_left (other b bMember)⟩
    · intro either
      rcases either with old | ⟨left, right⟩
      · exact finer a b old
      · exact r'.trans (r'.symm (hub a left)) (hub b right)
  · intro a member
    constructor
    · intro related
      rcases related_or_merged inside related with old | ⟨_, right⟩
      · exact absurd ((alone_of_inside inside old).mp rfl) (other a member)
      · exact right.resolve_left (other a member)
    · exact hub a

end Generated

/-- The classes that are not reached and those that are touched make up all classes. -/
private theorem Transversal.union {u v : Finset α} [DecidableEq α] [DecidablePred touches]
    [DecidablePred (Reaches r s touches)]
    (untouched : Transversal r (s.filter fun a => ¬ Reaches r s touches a) u)
    (touched : Transversal r (s.filter touches) v) : Disjoint u v ∧ Transversal r s (u ∪ v) := by
  have uSpec : ∀ a ∈ u, a ∈ s ∧ ¬ Reaches r s touches a := fun a member =>
    Finset.mem_filter.mp (untouched.inside member)
  have vSpec : ∀ a ∈ v, a ∈ s ∧ touches a := fun a member =>
    Finset.mem_filter.mp (touched.inside member)
  have vReached : ∀ a ∈ v, Reaches r s touches a := fun a member =>
    ⟨a, (vSpec a member).1, (vSpec a member).2, r.refl a⟩
  refine ⟨?_, ?_, ?_, ?_⟩
  · rw [Finset.disjoint_left]
    intro a inU inV
    exact (uSpec a inU).2 (vReached a inV)
  · intro a member
    rcases Finset.mem_union.mp member with inU | inV
    · exact (uSpec a inU).1
    · exact (vSpec a inV).1
  · intro a aMember b bMember related
    rcases Finset.mem_union.mp aMember with aU | aV
    · rcases Finset.mem_union.mp bMember with bU | bV
      · exact untouched.apart a aU b bU related
      · exact absurd ((vReached b bV).of_related (r.symm related)) (uSpec a aU).2
    · rcases Finset.mem_union.mp bMember with bU | bV
      · exact absurd ((vReached a aV).of_related related) (uSpec b bU).2
      · exact touched.apart a aV b bV related
  · intro a member
    by_cases reached : Reaches r s touches a
    · obtain ⟨c, cMember, cTouched, path⟩ := reached
      obtain ⟨b, chosen, related⟩ := touched.covers c (Finset.mem_filter.mpr ⟨cMember, cTouched⟩)
      exact ⟨b, Finset.mem_union_right u chosen, r.trans path related⟩
    · obtain ⟨b, chosen, related⟩ := untouched.covers a (Finset.mem_filter.mpr ⟨member, reached⟩)
      exact ⟨b, Finset.mem_union_left v chosen, related⟩

/-- After the point joined, the classes are its own and those it does not reach. -/
private theorem Joins.transversal [DecidableEq α] [DecidablePred (Reaches r s touches)]
    (joins : Joins r r' s x touches) {u : Finset α}
    (untouched : Transversal r (s.filter fun a => ¬ Reaches r s touches a) u) :
    x ∉ u ∧ Transversal r' (insert x s) (insert x u) := by
  have uSpec : ∀ a ∈ u, a ∈ s ∧ ¬ Reaches r s touches a := fun a member =>
    Finset.mem_filter.mp (untouched.inside member)
  refine ⟨fun member => joins.fresh (uSpec x member).1, ?_, ?_, ?_⟩
  · exact Finset.insert_subset_insert x (fun a member => (uSpec a member).1)
  · intro a aMember b bMember related
    rcases Finset.mem_insert.mp aMember with rfl | aOld
    · rcases Finset.mem_insert.mp bMember with rfl | bOld
      · rfl
      · exact absurd ((joins.new b (uSpec b bOld).1).mp related) (uSpec b bOld).2
    · rcases Finset.mem_insert.mp bMember with rfl | bOld
      · exact absurd ((joins.new a (uSpec a aOld).1).mp (r'.symm related)) (uSpec a aOld).2
      · rcases (joins.old a (uSpec a aOld).1 b (uSpec b bOld).1).mp related with old | ⟨reached, _⟩
        · exact untouched.apart a aOld b bOld old
        · exact absurd reached (uSpec a aOld).2
  · intro a member
    rcases Finset.mem_insert.mp member with rfl | old
    · exact ⟨a, Finset.mem_insert_self a u, r'.refl a⟩
    · by_cases reached : Reaches r s touches a
      · exact ⟨x, Finset.mem_insert_self x u, r'.symm ((joins.new a old).mpr reached)⟩
      · obtain ⟨b, chosen, related⟩ := untouched.covers a (Finset.mem_filter.mpr ⟨old, reached⟩)
        exact ⟨b, Finset.mem_insert_of_mem chosen,
          (joins.old a old b (uSpec b chosen).1).mpr (.inl related)⟩

/-- The new point merges the classes it touches into one. -/
theorem Joins.classCount [DecidableEq α] [DecidablePred touches] (joins : Joins r r' s x touches) :
    classCount r' (insert x s) + Foundation.classCount r (s.filter touches) =
      Foundation.classCount r s + 1 := by
  classical
  obtain ⟨u, untouched⟩ := Transversal.exists r (s.filter fun a => ¬ Reaches r s touches a)
  obtain ⟨v, touched⟩ := Transversal.exists r (s.filter touches)
  obtain ⟨disjoint, before⟩ := untouched.union touched
  obtain ⟨fresh, after⟩ := joins.transversal untouched
  rw [after.card, touched.card, before.card, Finset.card_insert_of_notMem fresh,
    Finset.card_union_of_disjoint disjoint]
  omega

end Joining

/-! The least label found in each class; members may carry no label. -/

section Labels

variable [DecidableEq α] [LinearOrder β] {r r' : Setoid α} {s : Finset α} {x : α}
  {touches : α → Prop} {label : α → Option β}

/-- `a` carries `b`, and no label in its class is smaller. -/
def IsLeastLabel (r : Setoid α) (s : Finset α) (label : α → Option β) (a : α) (b : β) : Prop :=
  label a = some b ∧ ∀ c ∈ s, r a c → ∀ d, label c = some d → b ≤ d

open Classical in
noncomputable def leastLabels (r : Setoid α) (s : Finset α) (label : α → Option β) : Finset β :=
  (s.biUnion fun a => (label a).toFinset).filter fun b => ∃ a ∈ s, IsLeastLabel r s label a b

omit [DecidableEq α] in
theorem mem_leastLabels {b : β} :
    b ∈ leastLabels r s label ↔ ∃ a ∈ s, IsLeastLabel r s label a b := by
  classical
  rw [leastLabels, Finset.mem_filter]
  refine ⟨And.right, fun found => ⟨?_, found⟩⟩
  obtain ⟨a, member, carried, _⟩ := found
  exact Finset.mem_biUnion.mpr ⟨a, member, by simp [carried]⟩

omit [DecidableEq α] in
theorem exists_least {a : α} {d : β} (member : a ∈ s) (carried : label a = some d) :
    ∃ c ∈ s, r a c ∧ ∃ b, IsLeastLabel r s label c b ∧ b ≤ d := by
  classical
  obtain ⟨c, chosen, least⟩ := Finset.exists_min_image
    (s.filter fun c => r a c ∧ (label c).isSome) (fun c => (label c).getD d)
    ⟨a, by simp [member, carried]⟩
  obtain ⟨cMember, related, some⟩ := Finset.mem_filter.mp chosen
  obtain ⟨b, cCarried⟩ := Option.isSome_iff_exists.mp some
  refine ⟨c, cMember, related, b, ⟨cCarried, ?_⟩, ?_⟩
  · intro e eMember path g eCarried
    have bound := least e (Finset.mem_filter.mpr
      ⟨eMember, r.trans related path, by simp [eCarried]⟩)
    simpa [cCarried, eCarried] using bound
  · have bound := least a (Finset.mem_filter.mpr ⟨member, r.refl a, by simp [carried]⟩)
    simpa [cCarried, carried] using bound

omit [DecidableEq α] in
/-- Only the labels of members count. -/
theorem isLeastLabel_congr {label' : α → Option β} (agree : ∀ a ∈ s, label a = label' a) {a : α}
    {b : β} (member : a ∈ s) : IsLeastLabel r s label a b ↔ IsLeastLabel r s label' a b := by
  unfold IsLeastLabel
  rw [agree a member]
  apply and_congr_right
  intro _
  exact forall₂_congr fun c cMember => by rw [agree c cMember]

omit [DecidableEq α] in
theorem leastLabels_congr {label' : α → Option β} (agree : ∀ a ∈ s, label a = label' a) :
    leastLabels r s label = leastLabels r s label' := by
  ext b
  rw [mem_leastLabels, mem_leastLabels]
  exact exists_congr fun a => and_congr_right fun member => isLeastLabel_congr agree member

/-- The new point's label is no class's least label yet, undercuts the least
label of every class it reaches, and each of those is also the least label of
a class it does not reach. -/
def Displaces (r : Setoid α) (s : Finset α) (touches : α → Prop) (label : α → Option β)
    (own : Option β) : Prop :=
  ∃ b, own = some b ∧ b ∉ leastLabels r s label ∧
    ∀ a ∈ s, Reaches r s touches a → ∀ d, IsLeastLabel r s label a d →
      b < d ∧ ∃ c ∈ s, ¬ Reaches r s touches c ∧ IsLeastLabel r s label c d

/-- Outside the merged class nothing changes. -/
private theorem Joins.least_outside (joins : Joins r r' s x touches) {a : α} {b : β}
    (member : a ∈ s) (outside : ¬ Reaches r s touches a) :
    IsLeastLabel r' (insert x s) label a b ↔ IsLeastLabel r s label a b := by
  constructor
  · rintro ⟨carried, least⟩
    exact ⟨carried, fun c cMember related => least c (Finset.mem_insert_of_mem cMember)
      ((joins.old a member c cMember).mpr (.inl related))⟩
  · rintro ⟨carried, least⟩
    refine ⟨carried, fun c cMember related => ?_⟩
    rcases Finset.mem_insert.mp cMember with rfl | old
    · exact absurd ((joins.new a member).mp (r'.symm related)) outside
    · rcases (joins.old a member c old).mp related with path | ⟨reached, _⟩
      · exact least c old path
      · exact absurd reached outside

/-- A least label of the merged class bounds the new point's label and those
of every member it reaches. -/
private theorem Joins.least_merged (joins : Joins r r' s x touches) {a : α} {b : β}
    (merged : a = x ∨ (a ∈ s ∧ Reaches r s touches a))
    (least : IsLeastLabel r' (insert x s) label a b) :
    (∀ d, label x = some d → b ≤ d) ∧
      ∀ c ∈ s, Reaches r s touches c → ∀ d, label c = some d → b ≤ d := by
  have toNew : r' a x := by
    rcases merged with rfl | ⟨member, reached⟩
    · exact r'.refl a
    · exact r'.symm ((joins.new a member).mpr reached)
  refine ⟨least.2 x (Finset.mem_insert_self x s) toNew, fun c member reached => ?_⟩
  exact least.2 c (Finset.mem_insert_of_mem member)
    (r'.trans toNew ((joins.new c member).mpr reached))

/-- A least label after the point joined was one before, or is the merged class's. -/
private theorem Joins.least_located (joins : Joins r r' s x touches) {d : β}
    (present : d ∈ leastLabels r' (insert x s) label) : d ∈ leastLabels r s label ∨
      ∃ a, (a = x ∨ (a ∈ s ∧ Reaches r s touches a)) ∧ IsLeastLabel r' (insert x s) label a d := by
  obtain ⟨a, member, least⟩ := mem_leastLabels.mp present
  rcases Finset.mem_insert.mp member with same | old
  · exact .inr ⟨a, .inl same, least⟩
  · by_cases reached : Reaches r s touches a
    · exact .inr ⟨a, .inr ⟨old, reached⟩, least⟩
    · exact .inl (mem_leastLabels.mpr ⟨a, old, (joins.least_outside old reached).mp least⟩)

/-- A new least label is the new point's own. -/
private theorem Joins.own_of_unused (joins : Joins r r' s x touches) {b : β}
    (found : b ∈ leastLabels r' (insert x s) label) (unused : b ∉ leastLabels r s label) :
    label x = some b ∧ ∀ c ∈ s, Reaches r s touches c → ∀ d, label c = some d → b ≤ d := by
  obtain ⟨a, merged, least⟩ := (joins.least_located found).resolve_left unused
  obtain ⟨_, belowReached⟩ := joins.least_merged merged least
  refine ⟨?_, belowReached⟩
  rcases merged with rfl | ⟨member, reached⟩
  · exact least.1
  · exfalso
    apply unused
    exact mem_leastLabels.mpr ⟨a, member, least.1, fun c cMember related =>
      belowReached c cMember (reached.of_related related)⟩

/-- Only one least label can be new. -/
private theorem Joins.least_single (joins : Joins r r' s x touches) {b d : β}
    (own : label x = some b)
    (belowReached : ∀ c ∈ s, Reaches r s touches c → ∀ d, label c = some d → b ≤ d)
    (present : d ∈ leastLabels r' (insert x s) label) : d ∈ leastLabels r s label ∨ d = b := by
  rcases joins.least_located present with old | ⟨c, merged, least⟩
  · exact .inl old
  · right
    have bound := (joins.least_merged merged least).1 b own
    rcases merged with rfl | ⟨member, reached⟩
    · exact Option.some.inj (least.1.symm.trans own)
    · exact le_antisymm bound (belowReached c member reached d least.1)

private theorem Joins.card_lt_of_displaces (joins : Joins r r' s x touches)
    (displaces : Displaces r s touches label (label x)) :
    (leastLabels r s label).card < (leastLabels r' (insert x s) label).card := by
  obtain ⟨b, carried, unused, undercuts⟩ := displaces
  have own : IsLeastLabel r' (insert x s) label x b := by
    refine ⟨carried, fun c member related d cCarried => ?_⟩
    rcases Finset.mem_insert.mp member with rfl | old
    · exact le_of_eq (Option.some.inj (carried.symm.trans cCarried))
    · have reached := (joins.new c old).mp related
      obtain ⟨e, eMember, path, g, least, below⟩ := exists_least (r := r) old cCarried
      exact ((undercuts e eMember (reached.of_related path) g least).1.trans_le below).le
  have kept : leastLabels r s label ⊆ leastLabels r' (insert x s) label := by
    intro d found
    obtain ⟨a, member, least⟩ := mem_leastLabels.mp found
    apply mem_leastLabels.mpr
    by_cases reached : Reaches r s touches a
    · obtain ⟨c, cMember, outside, other⟩ := (undercuts a member reached d least).2
      exact ⟨c, Finset.mem_insert_of_mem cMember, (joins.least_outside cMember outside).mpr other⟩
    · exact ⟨a, Finset.mem_insert_of_mem member, (joins.least_outside member reached).mpr least⟩
  have added : insert b (leastLabels r s label) ⊆ leastLabels r' (insert x s) label := by
    apply Finset.insert_subset _ kept
    exact mem_leastLabels.mpr ⟨x, Finset.mem_insert_self x s, own⟩
  have more := Finset.card_le_card added
  rw [Finset.card_insert_of_notMem unused] at more
  omega

private theorem Joins.displaces_of_card_lt (joins : Joins r r' s x touches)
    (grows : (leastLabels r s label).card < (leastLabels r' (insert x s) label).card) :
    Displaces r s touches label (label x) := by
  classical
  obtain ⟨b, found, unused⟩ := Finset.exists_mem_notMem_of_card_lt_card grows
  obtain ⟨own, belowReached⟩ := joins.own_of_unused found unused
  refine ⟨b, own, unused, fun c cMember cReached d cLeast => ?_⟩
  have dUsed : d ∈ leastLabels r s label := mem_leastLabels.mpr ⟨c, cMember, cLeast⟩
  have below : b < d := by
    apply lt_of_le_of_ne (belowReached c cMember cReached d cLeast.1)
    intro same
    exact unused (same ▸ dUsed)
  refine ⟨below, ?_⟩
  by_contra! lost
  -- the label of the reached class is gone and at most one is new
  have dropped : d ∉ leastLabels r' (insert x s) label := by
    intro present
    obtain ⟨e, eMember, eLeast⟩ := mem_leastLabels.mp present
    rcases Finset.mem_insert.mp eMember with rfl | old
    · have same := Option.some.inj (eLeast.1.symm.trans own)
      exact absurd same below.ne'
    · by_cases reached : Reaches r s touches e
      · have bound := (joins.least_merged (.inr ⟨old, reached⟩) eLeast).1 b own
        exact absurd bound (not_le.mpr below)
      · exact lost e old reached ((joins.least_outside old reached).mp eLeast)
  have subset : leastLabels r' (insert x s) label ⊆ insert b ((leastLabels r s label).erase d) := by
    intro e present
    rcases joins.least_single own belowReached present with old | rfl
    · refine Finset.mem_insert_of_mem (Finset.mem_erase.mpr ⟨?_, old⟩)
      intro same
      exact dropped (same ▸ present)
    · exact Finset.mem_insert_self e _
  have bound := (Finset.card_le_card subset).trans (Finset.card_insert_le _ _)
  rw [Finset.card_erase_of_mem dUsed] at bound
  have positive := Finset.card_pos.mpr ⟨d, dUsed⟩
  omega

/-- The point that joins adds a least label exactly when it displaces one that
stays in use elsewhere. -/
theorem Joins.leastLabels_card_le_iff (joins : Joins r r' s x touches) (label : α → Option β) :
    (leastLabels r' (insert x s) label).card ≤ (leastLabels r s label).card ↔
      ¬ Displaces r s touches label (label x) := by
  rw [← not_lt]
  exact not_congr ⟨joins.displaces_of_card_lt, joins.card_lt_of_displaces⟩

end Labels

end Foundation
