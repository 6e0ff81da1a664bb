import Mathlib.Data.List.Basic
import Mathlib.Data.Nat.Notation

/-! Runs of places in a marked sequence. A place starts a run, follows one, or lies
outside; a follower of no open run of its tag starts one as well. -/

namespace Foundation.Segments

variable {τ : Type*}

inductive Mark (τ : Type*)
  | starts (tag : τ)
  | follows (tag : τ)
  | outside

structure Segment (τ : Type*) where
  first : ℕ
  last : ℕ
  tag : τ

/-- The place before is in a run of the tag: every place marked with a tag is in one. -/
def Carried (marks : ℕ → Mark τ) (place : ℕ) (tag : τ) : Prop :=
  ∃ before, place = before + 1 ∧ (marks before = .starts tag ∨ marks before = .follows tag)

/-- A run of the tag begins here. -/
def Opens (marks : ℕ → Mark τ) (place : ℕ) (tag : τ) : Prop :=
  marks place = .starts tag ∨ marks place = .follows tag ∧ ¬ Carried marks place tag

/-- A run among the first `count` places that goes on as long as its followers do. -/
structure Maximal (marks : ℕ → Mark τ) (count : ℕ) (segment : Segment τ) : Prop where
  order : segment.first ≤ segment.last
  inside : segment.last < count
  opens : Opens marks segment.first segment.tag
  follows : ∀ place, segment.first < place → place ≤ segment.last →
    marks place = .follows segment.tag
  ends : segment.last + 1 < count → marks (segment.last + 1) ≠ .follows segment.tag

/-- The runs that are over, and the open one. -/
abbrev Growth (τ : Type*) := List (Segment τ) × Option (Segment τ)

def Growth.all (growth : Growth τ) : List (Segment τ) := growth.1 ++ growth.2.toList

/-- The next place ends the open run, continues it, or begins one. -/
def grow [DecidableEq τ] (marks : ℕ → Mark τ) (growth : Growth τ) (place : ℕ) : Growth τ :=
  match marks place with
  | .starts tag => (growth.all, some ⟨place, place, tag⟩)
  | .follows tag =>
    match growth.2 with
    | some current =>
      if tag = current.tag then (growth.1, some { current with last := place })
      else (growth.all, some ⟨place, place, tag⟩)
    | none => (growth.all, some ⟨place, place, tag⟩)
  | .outside => (growth.all, none)

/-- The runs of the first `count` places. -/
def growthOf [DecidableEq τ] (marks : ℕ → Mark τ) (count : ℕ) : Growth τ :=
  (List.range count).foldl (grow marks) ([], none)

/-- What holds after `count` places. -/
structure Grown (marks : ℕ → Mark τ) (count : ℕ) (growth : Growth τ) : Prop where
  listed : ∀ segment, segment ∈ growth.all ↔ Maximal marks count segment
  sorted : growth.all.Pairwise fun first second => first.last < second.first
  closed : ∀ segment ∈ growth.1, segment.last + 1 < count
  current : ∀ segment ∈ growth.2, segment.last + 1 = count
  carried : ∀ tag, (∃ segment ∈ growth.2, segment.tag = tag) ↔ Carried marks count tag

variable {marks : ℕ → Mark τ} {count place : ℕ} {tag : τ} {segment : Segment τ} {growth : Growth τ}

theorem carried_succ : Carried marks (place + 1) tag ↔
    marks place = .starts tag ∨ marks place = .follows tag := by
  simp [Carried]

/-- The run ends at the last place. -/
def Reaches (marks : ℕ → Mark τ) (count : ℕ) (segment : Segment τ) : Prop :=
  segment.last = count ∧ (segment.first = count ∧ Opens marks count segment.tag ∨
    marks count = .follows segment.tag ∧
      ∃ shorter, Maximal marks count shorter ∧ shorter.last + 1 = count ∧
        shorter.first = segment.first ∧ shorter.tag = segment.tag)

theorem Maximal.of_succ (maximal : Maximal marks (count + 1) segment) :
    (Maximal marks count segment ∧
      ¬ (segment.last + 1 = count ∧ marks count = .follows segment.tag)) ∨
      Reaches marks count segment := by
  obtain ⟨order, inside, opens, follows, ends⟩ := maximal
  rcases Nat.lt_succ_iff_lt_or_eq.mp inside with earlier | last
  · left
    refine ⟨⟨order, earlier, opens, follows, fun before => ends (by omega)⟩, ?_⟩
    intro continued
    apply ends (by omega)
    rw [continued.1]
    exact continued.2
  · right
    refine ⟨last, ?_⟩
    rcases Nat.lt_or_ge segment.first count with before | here
    · right
      refine ⟨follows count before (by omega), ⟨segment.first, count - 1, segment.tag⟩,
        ?_, ?_, rfl, rfl⟩
      · refine ⟨?_, ?_, opens, fun place after upto => follows place after ?_, fun more => ?_⟩ <;>
          dsimp only at * <;> omega
      · dsimp only
        omega
    · left
      have first : segment.first = count := by omega
      exact ⟨first, first ▸ opens⟩

theorem Maximal.succ (maximal : Maximal marks count segment)
    (finished : ¬ (segment.last + 1 = count ∧ marks count = .follows segment.tag)) :
    Maximal marks (count + 1) segment := by
  obtain ⟨order, inside, opens, follows, ends⟩ := maximal
  refine ⟨order, by omega, opens, follows, fun more continued => ?_⟩
  rcases Nat.lt_succ_iff_lt_or_eq.mp more with before | last
  · exact ends before continued
  · exact finished ⟨last, last ▸ continued⟩

theorem Reaches.maximal (reaches : Reaches marks count segment) :
    Maximal marks (count + 1) segment := by
  obtain ⟨last, begins | ⟨follower, shorter, maximal, upto, first, tag⟩⟩ := reaches
  · have opens : Opens marks segment.first segment.tag := begins.1 ▸ begins.2
    refine ⟨by omega, by omega, opens, fun place after before => ?_, fun more => ?_⟩ <;> omega
  · obtain ⟨order, inside, opens, follows, ends⟩ := maximal
    rw [first, tag] at opens
    refine ⟨by omega, by omega, opens, fun place after before => ?_, fun more => by omega⟩
    rcases Nat.lt_or_ge place count with earlier | here
    · rw [← tag]
      exact follows place (by omega) (by omega)
    · have same : place = count := by omega
      rw [same]
      exact follower

theorem maximal_succ_iff : Maximal marks (count + 1) segment ↔
    (Maximal marks count segment ∧
      ¬ (segment.last + 1 = count ∧ marks count = .follows segment.tag)) ∨
      Reaches marks count segment := by
  constructor
  · exact Maximal.of_succ
  · intro either
    rcases either with kept | reaches
    · exact kept.1.succ kept.2
    · exact reaches.maximal

theorem mem_all : segment ∈ growth.all ↔ segment ∈ growth.1 ∨ segment ∈ growth.2 := by
  rw [Growth.all, List.mem_append, Option.mem_toList, Option.mem_def]

theorem Grown.latest (grown : Grown marks count growth) (maximal : Maximal marks count segment)
    (last : segment.last + 1 = count) : segment ∈ growth.2 := by
  rcases mem_all.mp ((grown.listed segment).mpr maximal) with finished | current
  · have before := grown.closed segment finished
    omega
  · exact current

/-- When the open run ends, the others stay and at most one begins. -/
theorem Grown.listed_close (grown : Grown marks count growth)
    (finished : ∀ current ∈ growth.2, marks count ≠ .follows current.tag) :
    Maximal marks (count + 1) segment ↔ segment ∈ growth.all ∨
      segment.first = count ∧ segment.last = count ∧ Opens marks count segment.tag := by
  rw [maximal_succ_iff, grown.listed]
  constructor
  · intro either
    rcases either with kept | ⟨last, begins | ⟨follower, shorter, maximal, upto, _, tag⟩⟩
    · exact .inl kept.1
    · exact .inr ⟨begins.1, last, begins.2⟩
    · exact absurd (tag ▸ follower) (finished shorter (grown.latest maximal upto))
  · intro either
    rcases either with maximal | ⟨first, last, opens⟩
    · left
      refine ⟨maximal, fun continued => ?_⟩
      exact finished segment (grown.latest maximal continued.1) continued.2
    · exact .inr ⟨last, .inl ⟨first, opens⟩⟩

theorem Grown.closed_all (grown : Grown marks count growth) (member : segment ∈ growth.all) :
    segment.last + 1 < count + 1 := by
  have inside := ((grown.listed segment).mp member).inside
  omega

theorem Grown.outside (grown : Grown marks count growth) (outside : marks count = .outside) :
    Grown marks (count + 1) (growth.all, none) where
  listed segment := by
    rw [grown.listed_close fun current _ => by simp [outside], mem_all]
    simp [Opens, outside]
  sorted := by simpa [Growth.all] using grown.sorted
  closed segment member := grown.closed_all member
  current := by simp
  carried tag := by simp [carried_succ, outside]

theorem Grown.begins (grown : Grown marks count growth)
    (finished : ∀ current ∈ growth.2, marks count ≠ .follows current.tag)
    (opens : Opens marks count tag)
    (only : ∀ other, marks count = .starts other ∨ marks count = .follows other ↔ other = tag) :
    Grown marks (count + 1) (growth.all, some ⟨count, count, tag⟩) where
  listed segment := by
    rw [grown.listed_close finished, mem_all]
    constructor
    · intro either
      rcases either with before | here
      · exact .inl before
      · obtain rfl := Option.some.inj here
        exact .inr ⟨rfl, rfl, opens⟩
    · intro either
      rcases either with before | ⟨first, last, begun⟩
      · exact .inl before
      · obtain ⟨start, stop, marked⟩ := segment
        obtain rfl := (only marked).mp (begun.imp_right And.left)
        dsimp only at first last
        rw [first, last]
        exact .inr rfl
  sorted := by
    rw [Growth.all, Option.toList_some, List.pairwise_append]
    refine ⟨grown.sorted, List.pairwise_singleton _ _, fun before member new here => ?_⟩
    rw [List.mem_singleton.mp here]
    exact ((grown.listed before).mp member).inside
  closed segment member := grown.closed_all member
  current := by simp
  carried other := by simp [carried_succ, only, eq_comm]

/-- When the open run goes on, the others stay and none begins. -/
theorem Grown.listed_continue (grown : Grown marks count growth) {current : Segment τ}
    (opened : growth.2 = some current) (follower : marks count = .follows current.tag) :
    Maximal marks (count + 1) segment ↔
      segment ∈ growth.1 ∨ segment = { current with last := count } := by
  have upto := grown.current current opened
  have maximal := (grown.listed current).mp (mem_all.mpr (.inr opened))
  rw [maximal_succ_iff]
  constructor
  · intro either
    rcases either with ⟨kept, ended⟩ | ⟨last, begins | ⟨_, shorter, kept, ended, first, tag⟩⟩
    · rcases mem_all.mp ((grown.listed segment).mpr kept) with before | here
      · exact .inl before
      · obtain rfl := Option.some.inj (opened.symm.trans here)
        exact absurd ⟨upto, follower⟩ ended
    · rcases begins.2 with starts | ⟨follows, fresh⟩
      · simp [follower] at starts
      · obtain tag := Mark.follows.inj (follower.symm.trans follows)
        exact absurd ((grown.carried segment.tag).mp ⟨current, opened, tag⟩) fresh
    · obtain rfl := Option.some.inj (opened.symm.trans (grown.latest kept ended))
      right
      rw [first, tag, ← last]
  · intro either
    rcases either with before | longer
    · have finished := grown.closed segment before
      exact .inl ⟨(grown.listed segment).mp (mem_all.mpr (.inl before)), by omega⟩
    · rw [longer]
      exact .inr ⟨rfl, .inr ⟨follower, current, maximal, upto, rfl, rfl⟩⟩

theorem Grown.continues (grown : Grown marks count growth) {current : Segment τ}
    (opened : growth.2 = some current) (follower : marks count = .follows current.tag) :
    Grown marks (count + 1) (growth.1, some { current with last := count }) where
  listed segment := by
    rw [grown.listed_continue opened follower, mem_all, Option.mem_def, Option.some_inj]
    exact or_congr_right eq_comm
  sorted := by
    have sorted := grown.sorted
    rw [Growth.all, opened, Option.toList_some, List.pairwise_append] at sorted
    rw [Growth.all, Option.toList_some, List.pairwise_append]
    refine ⟨sorted.1, List.pairwise_singleton _ _, fun before member new here => ?_⟩
    rw [List.mem_singleton.mp here]
    exact sorted.2.2 before member current (List.mem_singleton_self current)
  closed segment member := by
    have finished := grown.closed segment member
    omega
  current := by simp
  carried other := by
    simp [carried_succ, follower, eq_comm]

theorem grown_zero (marks : ℕ → Mark τ) : Grown marks 0 ([], none) where
  listed segment := by
    have none : ¬ Maximal marks 0 segment := fun maximal => Nat.not_lt_zero _ maximal.inside
    simp [Growth.all, none]
  sorted := List.Pairwise.nil
  closed segment member := absurd member List.not_mem_nil
  current := by simp
  carried tag := by simp [Carried]

variable [DecidableEq τ]

theorem Grown.step (grown : Grown marks count growth) :
    Grown marks (count + 1) (grow marks growth count) := by
  unfold grow
  cases mark : marks count with
  | outside => exact grown.outside mark
  | starts tag =>
    apply grown.begins
    · simp [mark]
    · exact .inl mark
    · simp [mark, eq_comm]
  | follows tag =>
    dsimp only
    cases opened : growth.2 with
    | none =>
      dsimp only
      apply grown.begins
      · simp [opened]
      · refine .inr ⟨mark, fun carried => ?_⟩
        obtain ⟨current, held, _⟩ := (grown.carried tag).mpr carried
        simp [opened] at held
      · simp [mark, eq_comm]
    | some current =>
      dsimp only
      split
      next same => exact grown.continues opened (same ▸ mark)
      next different =>
        apply grown.begins
        · intro other held follows
          obtain rfl := Option.some.inj (opened.symm.trans held)
          exact different (Mark.follows.inj (mark.symm.trans follows))
        · refine .inr ⟨mark, fun carried => ?_⟩
          obtain ⟨other, held, tagged⟩ := (grown.carried tag).mpr carried
          obtain rfl := Option.some.inj (opened.symm.trans held)
          exact different tagged.symm
        · simp [mark, eq_comm]

/-- The runs found are the maximal ones, in order. -/
theorem grown_growthOf (marks : ℕ → Mark τ) (count : ℕ) :
    Grown marks count (growthOf marks count) := by
  induction count with
  | zero => exact grown_zero marks
  | succ count ih =>
    rw [growthOf, List.range_succ, List.foldl_concat]
    exact ih.step

end Foundation.Segments
