import Mathlib.Data.Finset.Card
import Mathlib.Data.Finset.SDiff
import NewsAggregator.Schema.Merge

/-! The contract of `merge_entities`: what it appends always, and when the geo it fills in
is that of the first geo-bearing entity. -/

namespace NewsAggregator

/-- Each appended entity is of the list, in its order, with a key that is not there yet. -/
structure Appends (item : Item) (entities added : List Entity) : Prop where
  merged : (mergeEntities item entities).entities = item.entities ++ added
  ordered : added.Sublist entities
  unknown : ∀ before entity after, added = before ++ entity :: after →
    entity.key ∉ (item.entities ++ before).map Entity.key

/-- What `merge_entities` is for. -/
structure MergeContract (item : Item) (entities : List Entity) : Prop where
  appends : ∃ added, Appends item entities added
  capped : (mergeEntities item entities).entities.length ≤ max item.entities.length maxEntities
  settled : mergeEntities (mergeEntities item entities) entities = mergeEntities item entities
  located : item.geo = none → (mergeEntities item entities).geo = entities.findSome? Entity.geo

/-- The keys of a list that the item does not have. -/
def newKeys (present : List (String × EntityType)) (entities : List Entity) :
    Finset (String × EntityType) :=
  (entities.map Entity.key).toFinset \ present.toFinset

/-- The entity's key is neither on the item nor before it in the list, and the new keys
before it leave room. -/
def Fresh (item : Item) (before : List Entity) (entity : Entity) : Prop :=
  entity.key ∉ (item.entities ++ before).map Entity.key ∧
    item.entities.length + (newKeys (item.entities.map Entity.key) before).card < maxEntities

instance (item : Item) (before : List Entity) (entity : Entity) :
    Decidable (Fresh item before entity) := inferInstanceAs (Decidable (_ ∧ _))

/-- The item has a geo, or the list has none to give, or the first fresh entity with a geo
has that of the first entity with one. -/
def Locatable (item : Item) (entities : List Entity) : Prop :=
  item.geo.isSome ∨ (∀ entity ∈ entities, entity.geo = none) ∨
    ∃ before entity after, entities = before ++ entity :: after ∧ Fresh item before entity ∧
      entity.geo.isSome ∧ entity.geo = entities.findSome? Entity.geo ∧
      ∀ first other rest, before = first ++ other :: rest → Fresh item first other →
        other.geo = none

section NewEntities

variable {present : List (String × EntityType)} {room : ℕ}

theorem newEntities_sublist (present : List (String × EntityType)) (room : ℕ)
    (entities : List Entity) : (newEntities present room entities).Sublist entities := by
  induction entities generalizing present room with
  | nil => exact List.Sublist.refl []
  | cons entity rest ih =>
    rw [newEntities]
    split
    · exact (ih present room).cons entity
    · exact (ih _ _).cons_cons entity

theorem newEntities_unknown {entities before after : List Entity} {entity : Entity}
    (split : newEntities present room entities = before ++ entity :: after) :
    entity.key ∉ present ∧ entity.key ∉ before.map Entity.key := by
  induction entities generalizing present room before with
  | nil => simp [newEntities] at split
  | cons first rest ih =>
    rw [newEntities] at split
    split at split
    · exact ih split
    · rename_i fresh
      cases before with
      | nil =>
        obtain ⟨rfl, _⟩ := List.cons.inj split
        exact ⟨fun known => fresh (.inl known), by simp⟩
      | cons head before =>
        obtain ⟨rfl, later⟩ := List.cons.inj split
        obtain ⟨absent, apart⟩ := ih later
        rw [List.mem_cons, not_or] at absent
        exact ⟨absent.2, by simp [absent.1, apart]⟩

theorem newKeys_cons (entity : Entity) (rest : List Entity) :
    newKeys present (entity :: rest) =
      if entity.key ∈ present then newKeys present rest
      else insert entity.key (newKeys (entity.key :: present) rest) := by
  unfold newKeys
  ext key
  split
  · rename_i known
    simp only [List.map_cons, List.toFinset_cons, Finset.mem_sdiff, Finset.mem_insert,
      List.mem_toFinset]
    refine and_congr_left fun absent => or_iff_right fun same => absent (same ▸ known)
  · rename_i fresh
    simp only [List.map_cons, List.toFinset_cons, Finset.mem_sdiff, Finset.mem_insert,
      List.mem_toFinset]
    by_cases same : key = entity.key
    · simp [same, fresh]
    · simp [same]

/-- As many are appended as there are new keys, up to the room. -/
theorem length_newEntities (entities : List Entity) :
    (newEntities present room entities).length = min room (newKeys present entities).card := by
  induction entities generalizing present room with
  | nil => simp [newEntities, newKeys]
  | cons entity rest ih =>
    rw [newEntities, newKeys_cons]
    by_cases known : entity.key ∈ present
    · rw [if_pos (.inl known), if_pos known, ih]
    · rw [if_neg known, Finset.card_insert_of_notMem (by simp [newKeys])]
      by_cases full : room = 0
      · rw [if_pos (.inr full), ih, full, Nat.zero_min, Nat.zero_min]
      · rw [if_neg (not_or.mpr ⟨known, full⟩), List.length_cons, ih]
        omega

/-- With room left, every key of the list is on the item or appended. -/
theorem key_mem_newEntities {entities : List Entity}
    (left : (newEntities present room entities).length < room) :
    ∀ key ∈ entities.map Entity.key,
      key ∈ present ∨ key ∈ (newEntities present room entities).map Entity.key := by
  induction entities generalizing present room with
  | nil => simp
  | cons entity rest ih =>
    intro key member
    rw [newEntities] at left ⊢
    split at left
    · rename_i skipped
      rw [if_pos skipped]
      rcases List.mem_cons.mp member with rfl | later
      · exact .inl (skipped.resolve_right (by omega))
      · exact ih left key later
    · rename_i fresh
      rw [if_neg fresh, List.map_cons]
      rcases List.mem_cons.mp member with rfl | later
      · exact .inr List.mem_cons_self
      · rw [List.length_cons] at left
        rcases ih (Nat.lt_sub_of_add_lt left) key later with known | added
        · rcases List.mem_cons.mp known with rfl | old
          · exact .inr List.mem_cons_self
          · exact .inl old
        · exact .inr (List.mem_cons_of_mem _ added)

theorem newEntities_eq_nil {entities : List Entity}
    (known : ∀ entity ∈ entities, entity.key ∈ present ∨ room = 0) :
    newEntities present room entities = [] := by
  induction entities with
  | nil => rfl
  | cons entity rest ih =>
    rw [newEntities, if_pos (known entity List.mem_cons_self)]
    exact ih fun other member => known other (List.mem_cons_of_mem entity member)

end NewEntities

section Appended

variable {item : Item}

theorem fresh_iff {before : List Entity} {entity : Entity} :
    Fresh item before entity ↔
      ¬ (entity.key ∈ (item.appended before).map Entity.key ++ item.entities.map Entity.key ∨
        maxEntities - item.entities.length - (item.appended before).length = 0) := by
  have counted : (item.appended before).length = min (maxEntities - item.entities.length)
      (newKeys (item.entities.map Entity.key) before).card := length_newEntities before
  rw [Fresh, List.map_append, List.mem_append, List.mem_append, not_or, not_or, not_or]
  constructor
  · rintro ⟨⟨absent, apart⟩, fits⟩
    refine ⟨⟨fun added => apart ?_, absent⟩, by omega⟩
    exact ((newEntities_sublist _ _ before).map Entity.key).subset added
  · rintro ⟨⟨apart, absent⟩, room⟩
    refine ⟨⟨absent, fun listed => ?_⟩, by omega⟩
    have left : (item.appended before).length < maxEntities - item.entities.length := by omega
    exact (key_mem_newEntities left _ listed).elim absent apart

/-- A further entity of the list is appended exactly when it is fresh. -/
theorem appended_concat (before : List Entity) (entity : Entity) :
    item.appended (before ++ [entity]) =
      item.appended before ++ if Fresh item before entity then [entity] else [] := by
  have split : item.appended (before ++ [entity]) = item.appended before ++
      newEntities ((item.appended before).map Entity.key ++ item.entities.map Entity.key)
        (maxEntities - item.entities.length - (item.appended before).length) [entity] :=
    newEntities_append (item.entities.map Entity.key) (maxEntities - item.entities.length) before
      [entity]
  have fresh : Fresh item before entity ↔ _ := fresh_iff
  rw [split, newEntities, newEntities, newEntities]
  congr 1
  by_cases here : Fresh item before entity
  · rw [if_pos here, if_neg (fresh.mp here)]
  · rw [if_neg here, if_pos (not_not.mp (mt fresh.mpr here))]

private theorem concat_split {before first after : List Entity} {last entity : Entity}
    (split : before ++ [last] = first ++ entity :: after) :
    (first = before ∧ entity = last ∧ after = []) ∨
      ∃ middle, after = middle ++ [last] ∧ before = first ++ entity :: middle := by
  rcases List.eq_nil_or_concat' after with rfl | ⟨middle, final, rfl⟩
  · obtain ⟨rfl, same⟩ := List.append_inj' split rfl
    exact .inl ⟨rfl, (List.singleton_inj.mp same).symm, rfl⟩
  · have grouped : before ++ [last] = (first ++ entity :: middle) ++ [final] := by
      rw [split]
      simp
    obtain ⟨same, ends⟩ := List.append_inj' grouped rfl
    exact .inr ⟨middle, by rw [List.singleton_inj.mp ends], same⟩

theorem appended_nil : item.appended [] = [] := rfl

/-- The appended entities carry no geo exactly when no fresh one does. -/
theorem appended_geo_none_iff {entities : List Entity} :
    (item.appended entities).findSome? Entity.geo = none ↔
      ∀ before entity after, entities = before ++ entity :: after → Fresh item before entity →
        entity.geo = none := by
  induction entities using List.reverseRecOn with
  | nil => simp [appended_nil]
  | append_singleton before last ih =>
    rw [appended_concat, List.findSome?_append, Option.or_eq_none_iff, ih]
    constructor
    · rintro ⟨earlier, here⟩ first entity after split fresh
      rcases concat_split split with ⟨rfl, rfl, rfl⟩ | ⟨middle, _, same⟩
      · simpa [fresh] using here
      · exact earlier first entity middle same fresh
    · intro none
      refine ⟨fun first entity after split fresh => ?_, ?_⟩
      · exact none first entity (after ++ [last]) (by rw [split]; simp) fresh
      · split
        · rename_i fresh
          simpa using none before last [] rfl fresh
        · rfl

theorem appended_geo_some_iff {entities : List Entity} {geo : Geo} :
    (item.appended entities).findSome? Entity.geo = some geo ↔
      ∃ before entity after, entities = before ++ entity :: after ∧ Fresh item before entity ∧
        entity.geo = some geo ∧
        ∀ first other rest, before = first ++ other :: rest → Fresh item first other →
          other.geo = none := by
  induction entities using List.reverseRecOn with
  | nil => simp [appended_nil]
  | append_singleton before last ih =>
    rw [appended_concat, List.findSome?_append, Option.or_eq_some_iff, ih, appended_geo_none_iff]
    constructor
    · rintro (⟨first, entity, after, split, found⟩ | ⟨none, here⟩)
      · exact ⟨first, entity, after ++ [last], by rw [split]; simp, found⟩
      · by_cases fresh : Fresh item before last
        · exact ⟨before, last, [], rfl, fresh, by simpa [fresh] using here, none⟩
        · simp [fresh] at here
    · rintro ⟨first, entity, after, split, fresh, located, none⟩
      rcases concat_split split with ⟨rfl, rfl, rfl⟩ | ⟨middle, _, same⟩
      · exact .inr ⟨none, by simp [fresh, located]⟩
      · exact .inl ⟨first, entity, middle, same, fresh, located, none⟩

end Appended

section Contract

variable {item : Item}

theorem appends (item : Item) (entities : List Entity) :
    Appends item entities (item.appended entities) where
  merged := by rw [mergeEntities_eq]
  ordered := newEntities_sublist _ _ entities
  unknown before entity after split := by
    obtain ⟨absent, apart⟩ := newEntities_unknown split
    rw [List.map_append, List.mem_append]
    exact not_or.mpr ⟨absent, apart⟩

theorem merge_capped (item : Item) (entities : List Entity) :
    (mergeEntities item entities).entities.length ≤ max item.entities.length maxEntities := by
  have counted : (item.appended entities).length ≤ maxEntities - item.entities.length :=
    (length_newEntities entities).trans_le (min_le_left _ _)
  rw [(appends item entities).merged, List.length_append]
  omega

/-- No entity of a list is fresh to the item the list was merged into. -/
theorem merge_settled (item : Item) (entities : List Entity) :
    mergeEntities (mergeEntities item entities) entities = mergeEntities item entities := by
  have nothing : (mergeEntities item entities).appended entities = [] := by
    refine newEntities_eq_nil fun entity member => ?_
    by_cases full : maxEntities - (mergeEntities item entities).entities.length = 0
    · exact .inr full
    · have merged := (appends item entities).merged
      rw [merged, List.length_append] at full
      have left : (item.appended entities).length < maxEntities - item.entities.length := by omega
      rw [merged, List.map_append, List.mem_append]
      exact .inl (key_mem_newEntities left _ (List.mem_map_of_mem member))
  rw [mergeEntities_eq (mergeEntities item entities), nothing]
  simp

theorem appended_geo_eq_iff {entities : List Entity} :
    (item.geo = none →
        (item.appended entities).findSome? Entity.geo = entities.findSome? Entity.geo) ↔
      Locatable item entities := by
  rw [Locatable]
  cases located : item.geo with
  | some geo => simp
  | none =>
    simp only [Option.isSome_none, Bool.false_eq_true, false_or, forall_const]
    cases first : entities.findSome? Entity.geo with
    | none =>
      have bare : ∀ entity ∈ entities, entity.geo = none := List.findSome?_eq_none_iff.mp first
      refine iff_of_true (appended_geo_none_iff.mpr ?_) (.inl bare)
      rintro before entity after rfl _
      exact bare entity (by simp)
    | some geo =>
      have given : ¬ ∀ entity ∈ entities, entity.geo = none := fun bare =>
        absurd (first.symm.trans (List.findSome?_eq_none_iff.mpr bare)) (by simp)
      rw [appended_geo_some_iff, or_iff_right given]
      refine exists_congr fun before => exists_congr fun entity => exists_congr fun after => ?_
      refine and_congr_right fun _ => and_congr_right fun _ => ?_
      constructor
      · rintro ⟨same, none⟩
        exact ⟨by rw [same]; rfl, same, none⟩
      · rintro ⟨_, same, none⟩
        exact ⟨same, none⟩

end Contract

/-- A merge keeps its contract exactly when the geo it can take is that of the first
entity with one. -/
theorem merge_contract_iff (item : Item) (entities : List Entity) :
    MergeContract item entities ↔ Locatable item entities := by
  have filled : item.geo = none →
      (mergeEntities item entities).geo = (item.appended entities).findSome? Entity.geo := by
    intro bare
    rw [mergeEntities_eq, bare, Option.none_or]
  rw [← appended_geo_eq_iff]
  constructor
  · exact fun contract bare => (filled bare).symm.trans (contract.located bare)
  · intro same
    exact ⟨⟨_, appends item entities⟩, merge_capped item entities, merge_settled item entities,
      fun bare => (filled bare).trans (same bare)⟩

theorem kyiv_ranges : (-90 ≤ (504501 / 10000 : ℚ) ∧ (504501 / 10000 : ℚ) ≤ 90) ∧
    (-180 ≤ (305234 / 10000 : ℚ) ∧ (305234 / 10000 : ℚ) ≤ 180) := by decide +kernel

theorem kyiv_geohashCap (hash : String) (present : none = some hash) : hash.length ≤ 16 :=
  absurd present.symm (Option.some_ne_none hash)

def kyivGeo : Geo where
  lat := 504501 / 10000
  lon := 305234 / 10000
  latRange := kyiv_ranges.1
  lonRange := kyiv_ranges.2
  geohashCap := kyiv_geohashCap

theorem kyiv_textCap : "Kyiv".length ≤ 256 := by decide +kernel

/-- The place, with or without its coordinates. -/
def kyivEntity (geo : Option Geo) : Entity where
  text := "Kyiv"
  type := .place
  geo := geo
  textCap := kyiv_textCap

/-- The notice names the place without coordinates, so those of the gazetteer's hit are
skipped with it. -/
theorem geo_lost : ¬ MergeContract { notice 1 "noaa" "storm" with entities := [kyivEntity none] }
    [kyivEntity (some kyivGeo)] := by
  intro contract
  have filled := contract.located rfl
  revert filled
  decide +kernel

end NewsAggregator
