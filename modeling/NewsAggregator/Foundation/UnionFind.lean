import Mathlib.Data.Finset.Card
import Mathlib.Data.Finset.Image
import Mathlib.Data.Nat.Find
import Mathlib.Logic.Function.Iterate
import Mathlib.Logic.Relation

/-! Union-find over a parent dictionary, with path halving and no ranks. The
dictionary is its keys in insertion order and the parent of each of them. -/

namespace Foundation

universe u

structure UnionFind (α : Type u) where
  keys : List α
  parent : α → α

namespace UnionFind

variable {α : Type u}

def empty : UnionFind α := ⟨[], id⟩

section Operations

variable [DecidableEq α]

def setParent (uf : UnionFind α) (x p : α) : UnionFind α :=
  { uf with parent := Function.update uf.parent x p }

def add (uf : UnionFind α) (x : α) : UnionFind α :=
  if x ∈ uf.keys then uf
  else { keys := uf.keys ++ [x], parent := Function.update uf.parent x x }

/-- The halving loop; the number of keys bounds its iterations. -/
def findLoop : Nat → UnionFind α → α → α × UnionFind α
  | 0, uf, x => (x, uf)
  | fuel + 1, uf, x =>
    if uf.parent x = x then (x, uf)
    else
      let halved := uf.setParent x (uf.parent (uf.parent x))
      findLoop fuel halved (halved.parent x)

def find (uf : UnionFind α) (x : α) : α × UnionFind α := findLoop uf.keys.length uf x

def union (uf : UnionFind α) (a b : α) : UnionFind α :=
  let (ra, uf) := uf.find a
  let (rb, uf) := uf.find b
  if ra = rb then uf else uf.setParent ra rb

def addToGroup (groups : List (α × Finset α)) (root x : α) : List (α × Finset α) :=
  match groups with
  | [] => [(root, {x})]
  | (r, members) :: rest =>
    if r = root then (r, insert x members) :: rest
    else (r, members) :: addToGroup rest root x

/-- Group every key under its root, in the order the roots are first met. -/
def groups (uf : UnionFind α) : List (α × Finset α) :=
  (uf.keys.foldl (fun (state : UnionFind α × List (α × Finset α)) x =>
    let (root, next) := state.1.find x
    (next, addToGroup state.2 root x)) (uf, [])).2

def components (uf : UnionFind α) : List (Finset α) := uf.groups.map Prod.snd

end Operations

/-- The representative of `x`: parents followed as often as there are keys. -/
def root (uf : UnionFind α) (x : α) : α := uf.parent^[uf.keys.length] x

def Same (uf : UnionFind α) (x y : α) : Prop := uf.root x = uf.root y

theorem same_equivalence (uf : UnionFind α) : Equivalence uf.Same :=
  ⟨fun _ => rfl, fun same => same.symm, fun first second => first.trans second⟩

/-- Parent links stay among the keys and some rank falls along each of them. -/
structure Valid (uf : UnionFind α) : Prop where
  nodup : uf.keys.Nodup
  closed : ∀ x ∈ uf.keys, uf.parent x ∈ uf.keys
  foreign : ∀ x, x ∉ uf.keys → uf.parent x = x
  ranked : ∃ rank : α → Nat, ∀ x, uf.parent x ≠ x → rank (uf.parent x) < rank x

theorem valid_empty : (empty : UnionFind α).Valid where
  nodup := List.nodup_nil
  closed := by simp [empty]
  foreign := by simp [empty]
  ranked := ⟨fun _ => 0, by simp [empty]⟩

private theorem rank_iterate {parent : α → α} {rank : α → Nat}
    (falls : ∀ x, parent x ≠ x → rank (parent x) < rank x) (x : α) (start : Nat) :
    ∀ distance, (∀ i < start + distance + 1, parent (parent^[i] x) ≠ parent^[i] x) →
      rank (parent^[start + distance + 1] x) < rank (parent^[start] x) := by
  intro distance
  induction distance with
  | zero =>
    intro moving
    rw [Nat.add_zero, Function.iterate_succ_apply']
    exact falls _ (moving start (by omega))
  | succ distance ih =>
    intro moving
    have earlier := ih (fun i bound => moving i (by omega))
    have last := falls _ (moving (start + distance + 1) (by omega))
    rw [← Function.iterate_succ_apply' parent] at last
    exact last.trans earlier

/-- A chain that keeps moving visits pairwise distinct keys, so it comes to
rest before it has as many links as there are keys. -/
theorem Valid.rests {uf : UnionFind α} (valid : uf.Valid) (x : α) :
    ∃ i ≤ uf.keys.length, uf.parent (uf.parent^[i] x) = uf.parent^[i] x := by
  classical
  by_contra! moving
  obtain ⟨rank, falls⟩ := valid.ranked
  have start : x ∈ uf.keys := by
    by_contra missing
    exact moving 0 (Nat.zero_le _) (valid.foreign x missing)
  have inside : ∀ i, uf.parent^[i] x ∈ uf.keys := by
    intro i
    induction i with
    | zero => exact start
    | succ i ih =>
      rw [Function.iterate_succ_apply']
      exact valid.closed _ ih
  have lower : ∀ i j, i < j → j ≤ uf.keys.length →
      rank (uf.parent^[j] x) < rank (uf.parent^[i] x) := by
    intro i j before bound
    obtain ⟨distance, rfl⟩ := Nat.exists_eq_add_of_lt before
    exact rank_iterate falls x i distance (fun k small => moving k (by omega))
  have injective : Set.InjOn (fun i => uf.parent^[i] x)
      (Finset.range (uf.keys.length + 1) : Finset Nat) := by
    intro i iBound j jBound same
    have iSmall : i ≤ uf.keys.length := by simpa using Finset.mem_range_succ_iff.mp iBound
    have jSmall : j ≤ uf.keys.length := by simpa using Finset.mem_range_succ_iff.mp jBound
    have equal : rank (uf.parent^[i] x) = rank (uf.parent^[j] x) := congrArg rank same
    rcases Nat.lt_trichotomy i j with before | rfl | after
    · exact absurd (lower i j before jSmall) (by omega)
    · rfl
    · exact absurd (lower j i after iSmall) (by omega)
  have room := Finset.card_le_card_of_injOn (t := uf.keys.toFinset) _
    (fun i _ => List.mem_toFinset.mpr (inside i)) injective
  have listed := List.toFinset_card_le uf.keys
  rw [Finset.card_range] at room
  omega

theorem Valid.parent_root {uf : UnionFind α} (valid : uf.Valid) (x : α) :
    uf.parent (uf.root x) = uf.root x := by
  obtain ⟨i, bound, resting⟩ := valid.rests x
  obtain ⟨extra, same⟩ := Nat.exists_eq_add_of_le bound
  have stays : uf.root x = uf.parent^[i] x := by
    rw [root, same, Nat.add_comm, Function.iterate_add_apply]
    exact Function.iterate_fixed resting extra
  rw [stays, resting]

theorem Valid.root_parent {uf : UnionFind α} (valid : uf.Valid) (x : α) :
    uf.root (uf.parent x) = uf.root x := by
  have resting := valid.parent_root x
  rw [root, ← Function.iterate_succ_apply, Function.iterate_succ_apply']
  exact resting

theorem root_of_resting {uf : UnionFind α} {x : α} (resting : uf.parent x = x) : uf.root x = x :=
  Function.iterate_fixed resting _

theorem Valid.root_root {uf : UnionFind α} (valid : uf.Valid) (x : α) :
    uf.root (uf.root x) = uf.root x :=
  root_of_resting (valid.parent_root x)

theorem Valid.root_mem {uf : UnionFind α} (valid : uf.Valid) {x : α} (member : x ∈ uf.keys) :
    uf.root x ∈ uf.keys := by
  have inside : ∀ i, uf.parent^[i] x ∈ uf.keys := by
    intro i
    induction i with
    | zero => exact member
    | succ i ih =>
      rw [Function.iterate_succ_apply']
      exact valid.closed _ ih
  exact inside _

/-- A rank that counts the links left to the root; it is bounded by the keys. -/
theorem Valid.bounded_rank {uf : UnionFind α} (valid : uf.Valid) :
    ∃ rank : α → Nat, (∀ x, uf.parent x ≠ x → rank (uf.parent x) < rank x) ∧
      ∀ x, rank x ≤ uf.keys.length := by
  classical
  have rests : ∀ x, ∃ i, uf.parent (uf.parent^[i] x) = uf.parent^[i] x := fun x =>
    let ⟨i, _, resting⟩ := valid.rests x
    ⟨i, resting⟩
  refine ⟨fun x => Nat.find (rests x), ?_, ?_⟩
  · intro x moving
    have positive : Nat.find (rests x) ≠ 0 := by
      intro zero
      have resting := Nat.find_spec (rests x)
      rw [zero] at resting
      exact moving resting
    obtain ⟨before, same⟩ := Nat.exists_eq_succ_of_ne_zero positive
    have resting := Nat.find_spec (rests x)
    rw [same, Nat.succ_eq_add_one, Function.iterate_succ_apply] at resting
    have least := Nat.find_min' (rests (uf.parent x)) resting
    show Nat.find (rests (uf.parent x)) < Nat.find (rests x)
    omega
  · intro x
    obtain ⟨i, bound, resting⟩ := valid.rests x
    exact (Nat.find_min' (rests x) resting).trans bound

/-- New links that stay inside the old classes and create no new resting
point leave every representative where it was. -/
theorem root_of_links {uf changed : UnionFind α} (valid : changed.Valid)
    (inside : ∀ x, uf.root (changed.parent x) = uf.root x)
    (resting : ∀ x, changed.parent x = x → uf.parent x = x) (x : α) :
    changed.root x = uf.root x := by
  have followed : ∀ i, uf.root (changed.parent^[i] x) = uf.root x := by
    intro i
    induction i with
    | zero => rfl
    | succ i ih => rw [Function.iterate_succ_apply', inside, ih]
  have final := root_of_resting (resting _ (valid.parent_root x))
  rw [← final]
  exact followed _

variable [DecidableEq α]

private theorem ne_parent_parent {uf : UnionFind α} {rank : α → Nat}
    (falls : ∀ x, uf.parent x ≠ x → rank (uf.parent x) < rank x) {x : α}
    (moving : uf.parent x ≠ x) : rank (uf.parent (uf.parent x)) < rank x := by
  have first := falls x moving
  by_cases resting : uf.parent (uf.parent x) = uf.parent x
  · rwa [resting]
  · exact (falls _ resting).trans first

private theorem halve_falls {uf : UnionFind α} {rank : α → Nat}
    (falls : ∀ x, uf.parent x ≠ x → rank (uf.parent x) < rank x) {x : α}
    (moving : uf.parent x ≠ x) :
    ∀ y, (uf.setParent x (uf.parent (uf.parent x))).parent y ≠ y →
      rank ((uf.setParent x (uf.parent (uf.parent x))).parent y) < rank y := by
  intro y steps
  by_cases same : y = x
  · subst y
    simpa [setParent] using ne_parent_parent falls moving
  · simp only [setParent, Function.update_of_ne same] at steps ⊢
    exact falls y steps

theorem Valid.halve {uf : UnionFind α} (valid : uf.Valid) {x : α} (moving : uf.parent x ≠ x) :
    (uf.setParent x (uf.parent (uf.parent x))).Valid where
  nodup := valid.nodup
  closed := by
    intro y member
    by_cases same : y = x
    · subst y
      simpa [setParent] using valid.closed _ (valid.closed _ member)
    · simpa [setParent, Function.update_of_ne same] using valid.closed y member
  foreign := by
    intro y missing
    have different : y ≠ x := by
      rintro rfl
      exact moving (valid.foreign y missing)
    simpa [setParent, Function.update_of_ne different] using valid.foreign y missing
  ranked := by
    obtain ⟨rank, falls⟩ := valid.ranked
    exact ⟨rank, halve_falls falls moving⟩

theorem Valid.root_halve {uf : UnionFind α} (valid : uf.Valid) {x : α}
    (moving : uf.parent x ≠ x) (y : α) :
    (uf.setParent x (uf.parent (uf.parent x))).root y = uf.root y := by
  obtain ⟨rank, falls⟩ := valid.ranked
  apply root_of_links (valid.halve moving)
  · intro z
    by_cases same : z = x
    · subst z
      simp [setParent, valid.root_parent]
    · simp [setParent, Function.update_of_ne same, valid.root_parent]
  · intro z resting
    by_cases same : z = x
    · subst z
      have lower := ne_parent_parent falls moving
      rw [show uf.parent (uf.parent x) = x by simpa [setParent] using resting] at lower
      omega
    · simpa [setParent, Function.update_of_ne same] using resting

private theorem findLoop_spec (fuel : Nat) :
    ∀ (uf : UnionFind α) (x : α) (rank : α → Nat), uf.Valid →
      (∀ y, uf.parent y ≠ y → rank (uf.parent y) < rank y) → rank x ≤ fuel →
      (findLoop fuel uf x).1 = uf.root x ∧ (findLoop fuel uf x).2.Valid ∧
        (findLoop fuel uf x).2.keys = uf.keys ∧
        ∀ y, (findLoop fuel uf x).2.root y = uf.root y := by
  induction fuel with
  | zero =>
    intro uf x rank valid falls bound
    have resting : uf.parent x = x := by
      by_contra moving
      have lower := falls x moving
      omega
    exact ⟨(root_of_resting resting).symm, valid, rfl, fun _ => rfl⟩
  | succ fuel ih =>
    intro uf x rank valid falls bound
    by_cases resting : uf.parent x = x
    · simp only [findLoop, resting, if_true]
      exact ⟨(root_of_resting resting).symm, valid, trivial, fun _ => trivial⟩
    · have lower := ne_parent_parent falls resting
      have next : (uf.setParent x (uf.parent (uf.parent x))).parent x =
          uf.parent (uf.parent x) := by simp [setParent]
      obtain ⟨found, kept, keys, roots⟩ := ih (uf.setParent x (uf.parent (uf.parent x)))
        (uf.parent (uf.parent x)) rank (valid.halve resting) (halve_falls falls resting) (by omega)
      simp only [findLoop, resting, if_false, next]
      refine ⟨?_, kept, keys, ?_⟩
      · rw [found, valid.root_halve resting, valid.root_parent, valid.root_parent]
      · intro y
        rw [roots, valid.root_halve resting]

/-- What one `find` does: it returns the representative and changes no class. -/
theorem Valid.find_spec {uf : UnionFind α} (valid : uf.Valid) (x : α) :
    (uf.find x).1 = uf.root x ∧ (uf.find x).2.Valid ∧ (uf.find x).2.keys = uf.keys ∧
      ∀ y, (uf.find x).2.root y = uf.root y := by
  obtain ⟨rank, falls, bound⟩ := valid.bounded_rank
  exact findLoop_spec uf.keys.length uf x rank valid falls (bound x)

/-- The halving loop without a bound on its iterations: it ends with this result. -/
inductive FindRuns : UnionFind α → α → α × UnionFind α → Prop where
  | rests {uf : UnionFind α} {x : α} (resting : uf.parent x = x) : FindRuns uf x (x, uf)
  | halves {uf : UnionFind α} {x : α} {result : α × UnionFind α} (moving : uf.parent x ≠ x)
      (later : FindRuns (uf.setParent x (uf.parent (uf.parent x)))
        ((uf.setParent x (uf.parent (uf.parent x))).parent x) result) : FindRuns uf x result

private theorem findRuns_findLoop (fuel : Nat) :
    ∀ (uf : UnionFind α) (x : α) (rank : α → Nat),
      (∀ y, uf.parent y ≠ y → rank (uf.parent y) < rank y) → rank x ≤ fuel →
        FindRuns uf x (findLoop fuel uf x) := by
  induction fuel with
  | zero =>
    intro uf x rank falls bound
    refine .rests ?_
    by_contra moving
    have lower := falls x moving
    omega
  | succ fuel ih =>
    intro uf x rank falls bound
    by_cases resting : uf.parent x = x
    · simp only [findLoop, resting, if_true]
      exact .rests resting
    · have lower := ne_parent_parent falls resting
      have next : (uf.setParent x (uf.parent (uf.parent x))).parent x =
          uf.parent (uf.parent x) := by simp [setParent]
      have later := ih (uf.setParent x (uf.parent (uf.parent x))) (uf.parent (uf.parent x)) rank
        (halve_falls falls resting) (by omega)
      simp only [findLoop, resting, if_false, next]
      refine .halves resting ?_
      rwa [next]

/-- The loop comes to its end within the bound. -/
theorem Valid.findRuns {uf : UnionFind α} (valid : uf.Valid) (x : α) :
    FindRuns uf x (uf.find x) := by
  obtain ⟨rank, falls, bound⟩ := valid.bounded_rank
  exact findRuns_findLoop uf.keys.length uf x rank falls (bound x)

theorem FindRuns.unique {uf : UnionFind α} {x : α} {first second : α × UnionFind α}
    (left : FindRuns uf x first) (right : FindRuns uf x second) : first = second := by
  induction left with
  | rests resting =>
    cases right with
    | rests => rfl
    | halves moving => exact absurd resting moving
  | halves moving _ ih =>
    cases right with
    | rests resting => exact absurd resting moving
    | halves _ later => exact ih later

theorem Valid.add {uf : UnionFind α} (valid : uf.Valid) (x : α) : (uf.add x).Valid := by
  rw [UnionFind.add]
  split
  · exact valid
  · rename_i missing
    have unchanged : Function.update uf.parent x x = uf.parent :=
      Function.update_eq_self_iff.mpr (valid.foreign x missing).symm
    rw [unchanged]
    refine ⟨?_, ?_, ?_, valid.ranked⟩
    · exact List.nodup_append.mpr ⟨valid.nodup, List.nodup_singleton x, by
        intro a present b single same
        rw [List.mem_singleton] at single
        subst same single
        exact missing present⟩
    · intro y member
      rcases List.mem_append.mp member with old | new
      · exact List.mem_append_left _ (valid.closed y old)
      · rw [List.mem_singleton] at new
        subst new
        simp [valid.foreign y missing]
    · intro y absent
      exact valid.foreign y (fun old => absent (List.mem_append_left _ old))

theorem mem_keys_add (uf : UnionFind α) (x y : α) : y ∈ (uf.add x).keys ↔ y ∈ uf.keys ∨ y = x := by
  rw [UnionFind.add]
  split
  · rename_i present
    constructor
    · exact Or.inl
    · rintro (old | rfl)
      · exact old
      · exact present
  · simp

theorem Valid.root_add {uf : UnionFind α} (valid : uf.Valid) (x y : α) :
    (uf.add x).root y = uf.root y := by
  apply root_of_links (valid.add x)
  · intro z
    rw [UnionFind.add]
    split
    · exact valid.root_parent z
    · by_cases same : z = x
      · subst z; simp
      · simp [Function.update_of_ne same, valid.root_parent]
  · intro z resting
    unfold UnionFind.add at resting
    split at resting
    · exact resting
    · rename_i missing
      by_cases same : z = x
      · subst z; exact valid.foreign _ missing
      · simpa [Function.update_of_ne same] using resting

private theorem Valid.link {uf : UnionFind α} (valid : uf.Valid) {a b : α}
    (aKey : a ∈ uf.keys) (bKey : b ∈ uf.keys) (aRoot : uf.parent a = a) (bRoot : uf.parent b = b)
    (different : a ≠ b) : (uf.setParent a b).Valid := by
  refine ⟨valid.nodup, ?_, ?_, ?_⟩
  · intro y member
    by_cases same : y = a
    · subst y; simpa [setParent] using bKey
    · simpa [setParent, Function.update_of_ne same] using valid.closed y member
  · intro y missing
    have other : y ≠ a := by rintro rfl; exact missing aKey
    simpa [setParent, Function.update_of_ne other] using valid.foreign y missing
  · obtain ⟨rank, falls⟩ := valid.ranked
    -- the whole tree of `a` moves above the rank of `b`
    refine ⟨fun y => rank y + if uf.root y = a then rank b + 1 else 0, ?_⟩
    intro y moving
    by_cases same : y = a
    · subst y
      have ownRoot := root_of_resting aRoot
      have otherRoot : uf.root b ≠ a := by rw [root_of_resting bRoot]; exact different.symm
      simp only [setParent, Function.update_self, ownRoot, otherRoot, if_true, if_false]
      omega
    · simp only [setParent, Function.update_of_ne same, valid.root_parent] at moving ⊢
      have lower := falls y moving
      omega

private theorem Valid.root_link {uf : UnionFind α} (valid : uf.Valid) {a b : α}
    (aKey : a ∈ uf.keys) (bKey : b ∈ uf.keys) (aRoot : uf.parent a = a) (bRoot : uf.parent b = b)
    (different : a ≠ b) (y : α) :
    (uf.setParent a b).root y = if uf.root y = a then b else uf.root y := by
  have linked := valid.link aKey bKey aRoot bRoot different
  have stop : (uf.setParent a b).root b = b := by
    apply root_of_resting
    simp [setParent, Function.update_of_ne different.symm, bRoot]
  have climb : ∀ i, (uf.setParent a b).root (uf.parent^[i] y) = (uf.setParent a b).root y := by
    intro i
    induction i with
    | zero => rfl
    | succ i ih =>
      rw [Function.iterate_succ_apply', ← ih]
      by_cases same : uf.parent^[i] y = a
      · rw [same, aRoot]
      · have step : (uf.setParent a b).parent (uf.parent^[i] y) = uf.parent (uf.parent^[i] y) := by
          simp [setParent, Function.update_of_ne same]
        rw [← step, linked.root_parent]
  have top : (uf.setParent a b).root (uf.root y) = (uf.setParent a b).root y := climb _
  rw [← top]
  split
  · rename_i same
    have step : (uf.setParent a b).parent a = b := by simp [setParent]
    rw [same, ← linked.root_parent, step, stop]
  · rename_i other
    apply root_of_resting
    simp [setParent, Function.update_of_ne other, valid.parent_root]

/-- What one `union` does: it joins the two classes and no others. -/
theorem Valid.union_spec {uf : UnionFind α} (valid : uf.Valid) {a b : α}
    (aKey : a ∈ uf.keys) (bKey : b ∈ uf.keys) :
    (uf.union a b).Valid ∧ (uf.union a b).keys = uf.keys ∧
      ∀ x y, (uf.union a b).Same x y ↔ uf.Same x y ∨
        (uf.Same x a ∧ uf.Same y b) ∨ (uf.Same x b ∧ uf.Same y a) := by
  obtain ⟨foundA, validA, keysA, rootsA⟩ := valid.find_spec a
  obtain ⟨foundB, validB, keysB, rootsB⟩ := validA.find_spec b
  have roots : ∀ y, ((uf.find a).2.find b).2.root y = uf.root y := fun y => by rw [rootsB, rootsA]
  have keys : ((uf.find a).2.find b).2.keys = uf.keys := keysB.trans keysA
  rw [rootsA] at foundB
  rw [UnionFind.union]
  simp only [foundA, foundB]
  split
  · rename_i same
    refine ⟨validB, keys, fun x y => ?_⟩
    simp only [Same, roots]
    grind
  · rename_i different
    have rest (c : α) : ((uf.find a).2.find b).2.parent (uf.root c) = uf.root c := by
      rw [← roots c]
      exact validB.parent_root c
    have aRootKey : uf.root a ∈ ((uf.find a).2.find b).2.keys := keys ▸ valid.root_mem aKey
    have bRootKey : uf.root b ∈ ((uf.find a).2.find b).2.keys := keys ▸ valid.root_mem bKey
    refine ⟨validB.link aRootKey bRootKey (rest a) (rest b) different, keys, fun x y => ?_⟩
    simp only [Same, validB.root_link aRootKey bRootKey (rest a) (rest b) different, roots]
    grind

/-- What the operations make of the empty dictionary; they are only called with keys. -/
inductive Reachable : UnionFind α → Prop where
  | empty : Reachable empty
  | add {uf : UnionFind α} (before : Reachable uf) (x : α) : Reachable (uf.add x)
  | find {uf : UnionFind α} (before : Reachable uf) {x : α} (key : x ∈ uf.keys) :
      Reachable (uf.find x).2
  | union {uf : UnionFind α} (before : Reachable uf) {a b : α} (aKey : a ∈ uf.keys)
      (bKey : b ∈ uf.keys) : Reachable (uf.union a b)

theorem Reachable.valid {uf : UnionFind α} (reachable : Reachable uf) : uf.Valid := by
  induction reachable with
  | empty => exact valid_empty
  | add _ x ih => exact ih.add x
  | find _ _ ih => exact (ih.find_spec _).2.1
  | union _ aKey bKey ih => exact (ih.union_spec aKey bKey).1

theorem Valid.union_mono {uf : UnionFind α} (valid : uf.Valid) {a b x y : α}
    (aKey : a ∈ uf.keys) (bKey : b ∈ uf.keys) (same : uf.Same x y) : (uf.union a b).Same x y :=
  ((valid.union_spec aKey bKey).2.2 x y).mpr (.inl same)

theorem Valid.union_joins {uf : UnionFind α} (valid : uf.Valid) {a b : α}
    (aKey : a ∈ uf.keys) (bKey : b ∈ uf.keys) : (uf.union a b).Same a b :=
  ((valid.union_spec aKey bKey).2.2 a b).mpr (.inr (.inl ⟨rfl, rfl⟩))

/-- A union of related elements stays inside every equivalence that already
contained the classes. -/
theorem Valid.union_sound {uf : UnionFind α} (valid : uf.Valid) {a b : α}
    (aKey : a ∈ uf.keys) (bKey : b ∈ uf.keys) {related : α → α → Prop}
    (equivalence : Equivalence related) (sound : ∀ x y, uf.Same x y → related x y)
    (pair : related a b) {x y : α} (same : (uf.union a b).Same x y) : related x y := by
  rcases ((valid.union_spec aKey bKey).2.2 x y).mp same with old | ⟨xa, yb⟩ | ⟨xb, ya⟩
  · exact sound x y old
  · exact equivalence.trans (sound x a xa)
      (equivalence.trans pair (equivalence.symm (sound y b yb)))
  · exact equivalence.trans (sound x b xb)
      (equivalence.trans (equivalence.symm pair) (equivalence.symm (sound y a ya)))

/-- Groups that hold exactly the elements listed so far, one group a class. -/
structure Grouped (classOf : α → α) (listed : List α) (groups : List (α × Finset α)) : Prop where
  nodup : (groups.map Prod.fst).Nodup
  named : ∀ r, r ∈ groups.map Prod.fst ↔ ∃ x ∈ listed, classOf x = r
  filled : ∀ group ∈ groups, ∀ y, y ∈ group.2 ↔ y ∈ listed ∧ classOf y = group.1

private theorem addToGroup_names (groups : List (α × Finset α)) (r x : α) :
    (addToGroup groups r x).map Prod.fst =
      if r ∈ groups.map Prod.fst then groups.map Prod.fst else groups.map Prod.fst ++ [r] := by
  induction groups with
  | nil => simp [addToGroup]
  | cons group rest ih =>
    obtain ⟨name, members⟩ := group
    by_cases same : name = r
    · simp [addToGroup, same]
    · by_cases present : r ∈ rest.map Prod.fst <;>
        simp [addToGroup, same, Ne.symm same, ih, present]

private theorem mem_addToGroup {groups : List (α × Finset α)} {r x : α} {group : α × Finset α}
    (nodup : (groups.map Prod.fst).Nodup) (member : group ∈ addToGroup groups r x) :
    (group.1 ≠ r ∧ group ∈ groups) ∨
      (∃ members, (r, members) ∈ groups ∧ group = (r, insert x members)) ∨
      (r ∉ groups.map Prod.fst ∧ group = (r, {x})) := by
  induction groups with
  | nil => simpa [addToGroup] using member
  | cons first rest ih =>
    obtain ⟨name, members⟩ := first
    obtain ⟨fresh, restNodup⟩ := List.nodup_cons.mp nodup
    by_cases same : name = r
    · subst r
      simp only [addToGroup, if_true] at member
      rcases List.mem_cons.mp member with head | later
      · exact .inr (.inl ⟨members, by simp, head⟩)
      · refine .inl ⟨?_, List.mem_cons_of_mem _ later⟩
        rintro rfl
        exact fresh (List.mem_map.mpr ⟨group, later, rfl⟩)
    · simp only [addToGroup, same, if_false] at member
      rcases List.mem_cons.mp member with rfl | later
      · exact .inl ⟨same, by simp⟩
      · rcases ih restNodup later with ⟨other, old⟩ | ⟨found, old, grown⟩ | ⟨absent, new⟩
        · exact .inl ⟨other, List.mem_cons_of_mem _ old⟩
        · exact .inr (.inl ⟨found, List.mem_cons_of_mem _ old, grown⟩)
        · refine .inr (.inr ⟨?_, new⟩)
          rw [List.map_cons, List.mem_cons, not_or]
          exact ⟨Ne.symm same, absent⟩

private theorem Grouped.add {classOf : α → α} {listed : List α} {groups : List (α × Finset α)}
    (grouped : Grouped classOf listed groups) (x : α) :
    Grouped classOf (listed ++ [x]) (addToGroup groups (classOf x) x) := by
  refine ⟨?_, ?_, ?_⟩
  · rw [addToGroup_names]
    split
    · exact grouped.nodup
    · rename_i fresh
      rw [List.nodup_append]
      exact ⟨grouped.nodup, List.nodup_singleton _, by
        intro a present b single same
        rw [List.mem_singleton] at single
        subst same single
        exact fresh present⟩
  · intro r
    rw [addToGroup_names]
    have old := grouped.named r
    have own := grouped.named (classOf x)
    split <;> grind
  · intro group member y
    rcases mem_addToGroup grouped.nodup member with
      ⟨other, old⟩ | ⟨members, old, rfl⟩ | ⟨fresh, rfl⟩
    · have filled := grouped.filled group old y
      grind
    · have filled := grouped.filled _ old y
      grind
    · have own := grouped.named (classOf x)
      grind

private theorem groups_fold {uf : UnionFind α} (rest : List α) :
    ∀ (current : UnionFind α) (listed : List α) (groups : List (α × Finset α)), current.Valid →
      (∀ y, current.root y = uf.root y) → Grouped uf.root listed groups →
      Grouped uf.root (listed ++ rest)
        (rest.foldl (fun (state : UnionFind α × List (α × Finset α)) x =>
          let (root, next) := state.1.find x
          (next, addToGroup state.2 root x)) (current, groups)).2 := by
  induction rest with
  | nil =>
    intro current listed groups _ _ grouped
    simpa using grouped
  | cons x rest ih =>
    intro current listed groups valid roots grouped
    obtain ⟨found, validNext, _, rootsNext⟩ := valid.find_spec x
    have next := grouped.add x
    rw [← roots x, ← found] at next
    rw [List.foldl_cons, List.append_cons]
    exact ih _ _ _ validNext (fun y => (rootsNext y).trans (roots y)) next

theorem Valid.grouped {uf : UnionFind α} (valid : uf.Valid) :
    Grouped uf.root uf.keys uf.groups := by
  have start : Grouped uf.root [] ([] : List (α × Finset α)) :=
    ⟨by simp, by simp, by simp⟩
  simpa [groups] using groups_fold uf.keys uf [] [] valid (fun _ => rfl) start

/-- The components are exactly the classes of the keys. -/
theorem Valid.mem_components {uf : UnionFind α} (valid : uf.Valid) (component : Finset α) :
    component ∈ uf.components ↔
      ∃ x ∈ uf.keys, component = uf.keys.toFinset.filter (fun y => uf.root y = uf.root x) := by
  have grouped := valid.grouped
  constructor
  · intro member
    obtain ⟨group, present, rfl⟩ := List.mem_map.mp member
    obtain ⟨x, key, named⟩ := (grouped.named group.1).mp (List.mem_map_of_mem present)
    refine ⟨x, key, ?_⟩
    ext y
    rw [grouped.filled group present y, Finset.mem_filter, List.mem_toFinset, named]
  · rintro ⟨x, key, rfl⟩
    obtain ⟨group, present, named⟩ :=
      List.mem_map.mp ((grouped.named (uf.root x)).mpr ⟨x, key, rfl⟩)
    refine List.mem_map.mpr ⟨group, present, ?_⟩
    ext y
    rw [grouped.filled group present y, Finset.mem_filter, List.mem_toFinset, named]

/-- The components with a property, counted by their representatives. -/
theorem Valid.countP_components {uf : UnionFind α} (valid : uf.Valid)
    (property : Finset α → Prop) [DecidablePred property] :
    (uf.components.filter (fun component => property component)).length =
      ((uf.keys.toFinset.image uf.root).filter fun r =>
        property (uf.keys.toFinset.filter fun y => uf.root y = r)).card := by
  have grouped := valid.grouped
  have named : uf.components = (uf.groups.map Prod.fst).map
      fun r => uf.keys.toFinset.filter fun y => uf.root y = r := by
    rw [components, List.map_map]
    apply List.map_congr_left
    intro group member
    ext y
    rw [grouped.filled group member y]
    simp
  rw [named, List.filter_map, List.length_map,
    ← List.toFinset_card_of_nodup (grouped.nodup.filter _)]
  congr 1
  ext r
  simp only [List.mem_toFinset, List.mem_filter, Finset.mem_filter, grouped.named r,
    Finset.mem_image, Function.comp_apply, decide_eq_true_eq]

theorem Valid.components_length {uf : UnionFind α} (valid : uf.Valid) :
    uf.components.length = (uf.keys.toFinset.image uf.root).card := by
  have grouped := valid.grouped
  have names : (uf.groups.map Prod.fst).toFinset = uf.keys.toFinset.image uf.root := by
    ext r
    rw [List.mem_toFinset, grouped.named r]
    simp
  rw [← names, List.toFinset_card_of_nodup grouped.nodup]
  simp [components]

end UnionFind

end Foundation
