import Mathlib.Data.List.Basic
import NewsAggregator.Schema.Item

/-! What `merge_entities` makes of an item: the entities that are new to it, up to
the cap, and the first geo among them. -/

namespace NewsAggregator

instance : LawfulBEq (String × EntityType) := inferInstance

/-- The entities whose key is not present yet, each once, as long as there is room. -/
def newEntities (present : List (String × EntityType)) : ℕ → List Entity → List Entity
  | _, [] => []
  | room, entity :: rest =>
    if entity.key ∈ present ∨ room = 0 then newEntities present room rest
    else entity :: newEntities (entity.key :: present) (room - 1) rest

/-- What a merge appends to the item. -/
def Item.appended (item : Item) (entities : List Entity) : List Entity :=
  newEntities (item.entities.map Entity.key) (maxEntities - item.entities.length) entities

variable {item : Item} {present : List (String × EntityType)}

private theorem foldl_mergeEntity (entities : List Entity) (item : Item)
    (present : List (String × EntityType)) :
    (entities.foldl mergeEntity (item, present)).1 = { item with
      entities := item.entities ++
        newEntities present (maxEntities - item.entities.length) entities
      geo := item.geo.or
        ((newEntities present (maxEntities - item.entities.length) entities).findSome?
          Entity.geo) } := by
  induction entities generalizing item present with
  | nil => simp [newEntities]
  | cons entity rest ih =>
    rw [List.foldl_cons, mergeEntity, newEntities]
    dsimp only
    by_cases full : entity.key ∈ present ∨ maxEntities ≤ item.entities.length
    · have skip : entity.key ∈ present ∨ maxEntities - item.entities.length = 0 :=
        full.imp_right Nat.sub_eq_zero_of_le
      rw [if_pos full, if_pos skip]
      exact ih item present
    · have append : ¬ (entity.key ∈ present ∨ maxEntities - item.entities.length = 0) :=
        fun skip => full (skip.imp_right Nat.le_of_sub_eq_zero)
      have room : maxEntities - (item.entities ++ [entity]).length =
          maxEntities - item.entities.length - 1 := by
        rw [List.length_append, List.length_singleton]
        omega
      rw [if_neg full, if_neg append, ih]
      dsimp only
      rw [room, List.append_assoc, List.singleton_append, List.findSome?_cons]
      congr 1
      cases located : item.geo <;> cases entity.geo <;> simp

/-- A merge appends the new entities and takes the first geo among them for an item
that has none. -/
theorem mergeEntities_eq (item : Item) (entities : List Entity) :
    mergeEntities item entities = { item with
      entities := item.entities ++ item.appended entities
      geo := item.geo.or ((item.appended entities).findSome? Entity.geo) } :=
  foldl_mergeEntity entities item _

theorem newEntities_congr {other : List (String × EntityType)}
    (same : ∀ key, key ∈ present ↔ key ∈ other) (room : ℕ) (entities : List Entity) :
    newEntities present room entities = newEntities other room entities := by
  induction entities generalizing present other room with
  | nil => rfl
  | cons entity rest ih =>
    rw [newEntities, newEntities]
    simp only [same entity.key]
    split
    · exact ih same room
    · refine congrArg (entity :: ·) (ih (fun key => ?_) (room - 1))
      rw [List.mem_cons, List.mem_cons, same key]

theorem newEntities_append (present : List (String × EntityType)) (room : ℕ)
    (first second : List Entity) :
    newEntities present room (first ++ second) = newEntities present room first ++
      newEntities ((newEntities present room first).map Entity.key ++ present)
        (room - (newEntities present room first).length) second := by
  induction first generalizing present room with
  | nil => simp [newEntities]
  | cons entity rest ih =>
    rw [List.cons_append, newEntities, newEntities]
    split
    · exact ih present room
    · rw [ih, List.cons_append]
      generalize newEntities (entity.key :: present) (room - 1) rest = taken
      have less : room - (entity :: taken).length = room - 1 - taken.length := by
        rw [List.length_cons]
        omega
      have later : newEntities (taken.map Entity.key ++ entity.key :: present)
          (room - 1 - taken.length) second =
          newEntities ((entity :: taken).map Entity.key ++ present) (room - 1 - taken.length)
            second := by
        refine newEntities_congr (fun key => ?_) _ _
        simp only [List.map_cons, List.mem_append, List.mem_cons]
        tauto
      rw [less, later]

/-- Entities that are all new, and not too many, are appended as they are. -/
theorem newEntities_of_nodup {entities : List Entity} {room : ℕ}
    (distinct : (entities.map Entity.key).Nodup)
    (fresh : ∀ entity ∈ entities, entity.key ∉ present) (fits : entities.length ≤ room) :
    newEntities present room entities = entities := by
  induction entities generalizing present room with
  | nil => rfl
  | cons entity rest ih =>
    rw [List.map_cons, List.nodup_cons] at distinct
    rw [List.length_cons] at fits
    have append : ¬ (entity.key ∈ present ∨ room = 0) := by
      rintro (known | full)
      · exact fresh entity List.mem_cons_self known
      · omega
    rw [newEntities, if_neg append, ih distinct.2 (fun other member => ?_) (by omega)]
    rw [List.mem_cons, not_or]
    refine ⟨fun same => distinct.1 (same ▸ List.mem_map_of_mem member), ?_⟩
    exact fresh other (List.mem_cons_of_mem _ member)

/-- Two merges are one merge of both lists. -/
theorem mergeEntities_append (item : Item) (first second : List Entity) :
    mergeEntities (mergeEntities item first) second = mergeEntities item (first ++ second) := by
  have added : (mergeEntities item first).appended second =
      newEntities ((item.appended first).map Entity.key ++ item.entities.map Entity.key)
        (maxEntities - item.entities.length - (item.appended first).length) second := by
    rw [mergeEntities_eq, Item.appended]
    dsimp only
    rw [List.length_append, Nat.sub_add_eq]
    refine newEntities_congr (fun key => ?_) _ _
    rw [List.map_append, List.mem_append, List.mem_append, or_comm]
  have both : item.appended (first ++ second) =
      item.appended first ++ (mergeEntities item first).appended second := by
    rw [added, Item.appended, newEntities_append]
    rfl
  rw [mergeEntities_eq (mergeEntities item first), mergeEntities_eq item (first ++ second), both,
    mergeEntities_eq item first]
  simp [List.findSome?_append, Option.or_assoc]

end NewsAggregator
