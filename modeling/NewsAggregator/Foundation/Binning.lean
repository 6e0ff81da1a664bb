import Mathlib.Algebra.BigOperators.Group.List.Basic
import Mathlib.Algebra.Ring.Divisibility.Basic
import Mathlib.Algebra.Ring.Int.Defs
import Mathlib.Data.List.Nodup
import Mathlib.Tactic.Ring

/-! Bins of an even grid: the bin of a value, the bins of a window, and sums over the
entries of a list by bin. -/

namespace Foundation

/-- The start of the bin that contains the value. -/
def binOf (width value : Int) : Int := value / width * width

/-- The starts of the bins from `since` on that are not after `until'`. -/
def slots (since until' width : Int) : List Int :=
  (List.range ((until' - since) / width + 1).toNat).map fun (i : ℕ) => since + i * width

section Grid

variable {width : Int}

theorem dvd_binOf (value : Int) : width ∣ binOf width value := Dvd.intro_left _ rfl

theorem lt_binOf_add (positive : 0 < width) (value : Int) :
    value < binOf width value + width := Int.lt_ediv_add_one_mul_self value positive
      |>.trans_eq (by rw [binOf, Int.add_mul, Int.one_mul])

theorem binOf_of_dvd {value : Int} (aligned : width ∣ value) : binOf width value = value :=
  Int.ediv_mul_cancel aligned

theorem le_binOf_iff (positive : 0 < width) {start value : Int} (aligned : width ∣ start) :
    start ≤ binOf width value ↔ start ≤ value := by
  obtain ⟨i, rfl⟩ := aligned
  rw [binOf, Int.mul_comm width i, Int.mul_le_mul_right positive, Int.le_ediv_iff_mul_le positive]

theorem binOf_le_iff (positive : 0 < width) {last value : Int} (aligned : width ∣ last) :
    binOf width value ≤ last ↔ value < last + width := by
  obtain ⟨i, rfl⟩ := aligned
  rw [binOf, Int.mul_comm width i, Int.mul_le_mul_right positive, ← Int.lt_add_one_iff,
    Int.ediv_lt_iff_lt_mul positive, Int.add_mul, Int.one_mul]

end Grid

section Slots

variable {since until' width : Int}

theorem slots_of_lt (positive : 0 < width) (late : until' < since) :
    slots since until' width = [] := by
  have negative : (until' - since) / width < 0 := Int.ediv_neg_of_neg_of_pos (by omega) positive
  have none : ((until' - since) / width + 1).toNat = 0 := by omega
  rw [slots, none]
  rfl

theorem slots_of_le (positive : 0 < width) (early : since ≤ until') :
    slots since until' width = since :: slots (since + width) until' width := by
  have fewer : (until' - since) / width = (until' - (since + width)) / width + 1 := by
    rw [← Int.add_mul_ediv_right _ _ positive.ne']
    congr 1
    omega
  have nonneg : 0 ≤ (until' - since) / width := Int.ediv_nonneg (by omega) positive.le
  have count : ((until' - since) / width + 1).toNat =
      ((until' - (since + width)) / width + 1).toNat + 1 := by omega
  rw [slots, count, List.range_succ_eq_map, List.map_cons, List.map_map, slots]
  congr 1
  · simp
  · refine List.map_congr_left fun i _ => ?_
    simp only [Function.comp, Nat.succ_eq_add_one]
    push_cast
    ring

theorem nodup_slots (positive : 0 < width) : (slots since until' width).Nodup := by
  refine List.nodup_range.map fun i j same => ?_
  have equal : (i : Int) * width = j * width := Int.add_left_cancel same
  exact_mod_cast Int.eq_of_mul_eq_mul_right positive.ne' equal

/-- The bins of a window on the grid. -/
theorem mem_slots_iff (positive : 0 < width) (first : width ∣ since) {start : Int} :
    start ∈ slots since until' width ↔ width ∣ start ∧ since ≤ start ∧ start ≤ until' := by
  simp only [slots, List.mem_map, List.mem_range, Int.lt_toNat, Int.lt_add_one_iff]
  constructor
  · rintro ⟨i, inside, rfl⟩
    rw [Int.le_ediv_iff_mul_le positive] at inside
    refine ⟨dvd_add first (Dvd.intro_left _ rfl), ?_, by omega⟩
    have ahead : 0 ≤ (i : Int) * width := Int.mul_nonneg (Int.natCast_nonneg i) positive.le
    omega
  · rintro ⟨aligned, after, before⟩
    obtain ⟨i, apart⟩ := dvd_sub aligned first
    have nonneg : 0 ≤ i := by
      by_contra negative
      have below : width * i < 0 := Int.mul_neg_of_pos_of_neg positive (by omega)
      omega
    refine ⟨i.toNat, ?_, ?_⟩
    · rw [Int.toNat_of_nonneg nonneg, Int.le_ediv_iff_mul_le positive, Int.mul_comm]
      omega
    · rw [Int.toNat_of_nonneg nonneg, Int.mul_comm]
      omega

end Slots

section Sums

variable {κ ρ M : Type*} [DecidableEq κ] [AddCommMonoid M]

omit [DecidableEq κ] in
theorem sum_filter_or {first second : ρ → Prop} [DecidablePred first]
    [DecidablePred second] (rows : List ρ) (weight : ρ → M)
    (apart : ∀ row ∈ rows, first row → ¬ second row) :
    ((rows.filter fun row => first row ∨ second row).map weight).sum =
      ((rows.filter fun row => first row).map weight).sum +
        ((rows.filter fun row => second row).map weight).sum := by
  induction rows with
  | nil => simp
  | cons row rest ih =>
    have later := ih fun other member => apart other (List.mem_cons_of_mem row member)
    have here := apart row List.mem_cons_self
    by_cases left : first row
    · simp [-Bool.decide_or, left, here left, later, add_assoc]
    · by_cases right : second row
      · simp [-Bool.decide_or, left, right, later, add_left_comm]
      · simp [-Bool.decide_or, left, right, later]

/-- Sums over the entries of distinct keys add up to the sum over all their entries. -/
theorem sum_by_key {keys : List κ} (distinct : keys.Nodup) (rows : List ρ) (key : ρ → κ)
    (weight : ρ → M) :
    (keys.map fun k => ((rows.filter fun row => key row = k).map weight).sum).sum =
      ((rows.filter fun row => key row ∈ keys).map weight).sum := by
  induction keys with
  | nil => simp
  | cons k rest ih =>
    obtain ⟨fresh, later⟩ := List.nodup_cons.mp distinct
    have apart : ∀ row ∈ rows, key row = k → ¬ key row ∈ rest :=
      fun row _ same member => fresh (same ▸ member)
    simp only [List.map_cons, List.sum_cons, ih later, List.mem_cons]
    exact (sum_filter_or rows weight apart).symm

/-- A lookup in a table built from its keys. -/
theorem lookup_map_eq {α : Type*} (keys : List κ) (value : κ → α) (key : κ) :
    (keys.map fun k => (k, value k)).lookup key =
      if key ∈ keys then some (value key) else none := by
  induction keys with
  | nil => rfl
  | cons first rest ih =>
    by_cases same : key = first
    · subst same
      simp
    · rw [List.map_cons, List.lookup_cons, beq_false_of_ne same, ih]
      simp [same]

end Sums

end Foundation
