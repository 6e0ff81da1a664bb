import Mathlib.Data.List.Induction
import NewsAggregator.Foundation.Unicode

/-! The Unicode algorithms on a text in parts: where a part can be put in lower case or
stripped of its marks by itself. -/

namespace Foundation

/-- The ways to take an element out of a list: the first one, or one of the rest. -/
theorem forall_split_cons {α : Type*} {p : List α → α → List α → Prop} {x : α} {xs : List α} :
    (∀ front y back, x :: xs = front ++ y :: back → p front y back) ↔
      p [] x xs ∧ ∀ front y back, xs = front ++ y :: back → p (x :: front) y back := by
  constructor
  · intro all
    refine ⟨all [] x xs rfl, fun front y back cut => all (x :: front) y back ?_⟩
    rw [cut, List.cons_append]
  · rintro ⟨here, later⟩ front y back cut
    cases front with
    | nil =>
      obtain ⟨rfl, rfl⟩ := List.cons.inj cut
      exact here
    | cons z front =>
      obtain ⟨rfl, rfl⟩ := List.cons.inj cut
      exact later front y back rfl

namespace CharacterData

variable (db : CharacterData)

section Ordering

variable {c : CodePoint} {text later : CodePoints}

/-- A text that is empty or starts with a starter. -/
def AtStarter (text : CodePoints) : Prop := ∀ c ∈ text.head?, db.combining c = 0

variable {db}

theorem insertMark_starter (starter : db.combining c = 0) : db.insertMark c text = c :: text := by
  cases text with
  | nil => rfl
  | cons next rest => exact if_neg (by omega)

theorem insertMark_append (starts : db.AtStarter later) :
    db.insertMark c (text ++ later) = db.insertMark c text ++ later := by
  induction text with
  | nil =>
    cases later with
    | nil => rfl
    | cons next rest =>
      have starter := starts next rfl
      exact if_neg (by omega)
  | cons next rest ih =>
    rw [List.cons_append, insertMark, insertMark]
    split
    · rw [ih, List.cons_append]
    · rfl

theorem canonicalOrder_cons (c : CodePoint) (text : CodePoints) :
    db.canonicalOrder (c :: text) = db.insertMark c (db.canonicalOrder text) := rfl

theorem canonicalOrder_starter (starter : db.combining c = 0) :
    db.canonicalOrder (c :: text) = c :: db.canonicalOrder text := insertMark_starter starter

theorem AtStarter.canonicalOrder (starts : db.AtStarter text) :
    db.AtStarter (db.canonicalOrder text) := by
  cases text with
  | nil => exact starts
  | cons next rest =>
    rw [canonicalOrder_starter (starts next rfl)]
    exact starts

/-- Marks stay on their side of a starter. -/
theorem canonicalOrder_append (starts : db.AtStarter later) :
    db.canonicalOrder (text ++ later) = db.canonicalOrder text ++ db.canonicalOrder later := by
  induction text with
  | nil => rfl
  | cons c rest ih =>
    rw [List.cons_append, canonicalOrder_cons, ih, insertMark_append starts.canonicalOrder,
      canonicalOrder_cons]

theorem canonicalOrder_append_starter (starter : db.combining c = 0) (text later : CodePoints) :
    db.canonicalOrder (text ++ c :: later) =
      db.canonicalOrder (text ++ [c]) ++ db.canonicalOrder later := by
  have starts : ∀ rest, db.AtStarter (c :: rest) := by simp [AtStarter, starter]
  rw [canonicalOrder_append (starts later), canonicalOrder_append (starts []),
    canonicalOrder_starter starter, canonicalOrder_starter starter]
  simp [CharacterData.canonicalOrder]

/-- Every text ends in marks, with a starter before them if anything is. -/
theorem exists_trailing (db : CharacterData) (text : CodePoints) :
    ∃ front marks, text = front ++ marks ∧ (∀ c ∈ marks, db.combining c ≠ 0) ∧
      ∀ rest, db.canonicalOrder (front ++ rest) =
        db.canonicalOrder front ++ db.canonicalOrder rest := by
  induction text using List.reverseRecOn with
  | nil => exact ⟨[], [], rfl, by simp, fun _ => rfl⟩
  | append_singleton text c ih =>
    by_cases starter : db.combining c = 0
    · refine ⟨text ++ [c], [], (List.append_nil _).symm, by simp, fun rest => ?_⟩
      rw [List.append_assoc, List.singleton_append, canonicalOrder_append_starter starter]
    · obtain ⟨front, marks, rfl, combining, apart⟩ := ih
      refine ⟨front, marks ++ [c], List.append_assoc .., ?_, apart⟩
      simpa [or_imp, forall_and] using ⟨combining, starter⟩

/-- Every text starts with marks, with a starter behind them if anything is. -/
theorem exists_leading (db : CharacterData) (text : CodePoints) :
    ∃ marks back, text = marks ++ back ∧ (∀ c ∈ marks, db.combining c ≠ 0) ∧
      db.AtStarter back := by
  induction text with
  | nil => exact ⟨[], [], rfl, by simp, by simp [AtStarter]⟩
  | cons c rest ih =>
    by_cases starter : db.combining c = 0
    · exact ⟨[], c :: rest, rfl, by simp, by simp [AtStarter, starter]⟩
    · obtain ⟨marks, back, rfl, combining, starts⟩ := ih
      refine ⟨c :: marks, back, rfl, ?_, starts⟩
      simpa using ⟨starter, combining⟩

def Ordered (db : CharacterData) (marks : CodePoints) : Prop :=
  marks.Pairwise fun first second => db.combining first ≤ db.combining second

theorem Ordered.insertMark {marks : CodePoints} (ordered : Ordered db marks)
    (combining : ∀ d ∈ marks, db.combining d ≠ 0) : Ordered db (db.insertMark c marks) := by
  induction marks with
  | nil => exact List.pairwise_singleton _ c
  | cons next rest ih =>
    obtain ⟨below, ordered'⟩ := List.pairwise_cons.mp ordered
    have positive := combining next List.mem_cons_self
    rw [CharacterData.insertMark]
    split
    · rename_i moves
      refine List.pairwise_cons.mpr ⟨fun d member => ?_, ih ordered' fun d inside =>
        combining d (List.mem_cons_of_mem next inside)⟩
      rcases List.mem_cons.mp ((db.insertMark_perm c rest).subset member) with rfl | inside
      · exact Nat.le_of_lt moves.2
      · exact below d inside
    · refine List.pairwise_cons.mpr ⟨fun d member => ?_, ordered⟩
      rcases List.mem_cons.mp member with rfl | inside
      · omega
      · have later := below d inside
        omega

theorem ordered_canonicalOrder {marks : CodePoints}
    (combining : ∀ d ∈ marks, db.combining d ≠ 0) : Ordered db (db.canonicalOrder marks) := by
  induction marks with
  | nil => exact List.Pairwise.nil
  | cons c rest ih =>
    have later := fun d inside => combining d (List.mem_cons_of_mem c inside)
    exact (ih later).insertMark fun d inside =>
      later d ((db.canonicalOrder_perm rest).subset inside)

theorem filter_insertMark {keep : CodePoint → Bool} {marks : CodePoints}
    (ordered : Ordered db marks) (combining : ∀ d ∈ marks, db.combining d ≠ 0) :
    (db.insertMark c marks).filter keep =
      if keep c then db.insertMark c (marks.filter keep) else marks.filter keep := by
  induction marks with
  | nil => cases kept : keep c <;> simp [CharacterData.insertMark, kept]
  | cons next rest ih =>
    obtain ⟨below, ordered'⟩ := List.pairwise_cons.mp ordered
    have rest_combining := fun d inside => combining d (List.mem_cons_of_mem next inside)
    have positive := combining next List.mem_cons_self
    have later := ih ordered' rest_combining
    rw [CharacterData.insertMark]
    split
    · rename_i moves
      cases stays : keep next with
      | true =>
        rw [List.filter_cons_of_pos stays, List.filter_cons_of_pos stays, later,
          CharacterData.insertMark, if_pos moves]
        split <;> rfl
      | false =>
        rw [List.filter_cons_of_neg (by simp [stays]), List.filter_cons_of_neg (by simp [stays]),
          later]
    · -- every mark behind is as high as the one that stops the new one
      have stops : db.insertMark c ((next :: rest).filter keep) =
          c :: (next :: rest).filter keep := by
        cases kept : (next :: rest).filter keep with
        | nil => rfl
        | cons head more =>
          have inside : head ∈ next :: rest :=
            List.mem_of_mem_filter (kept ▸ List.mem_cons_self : head ∈ (next :: rest).filter keep)
          refine if_neg ?_
          rcases List.mem_cons.mp inside with rfl | inside
          · omega
          · have higher := below head inside
            omega
      rw [stops, List.filter_cons]

/-- The canonical ordering of marks is stable: leaving some out changes no order. -/
theorem filter_canonicalOrder {keep : CodePoint → Bool} {marks : CodePoints}
    (combining : ∀ d ∈ marks, db.combining d ≠ 0) :
    (db.canonicalOrder marks).filter keep = db.canonicalOrder (marks.filter keep) := by
  induction marks with
  | nil => rfl
  | cons c rest ih =>
    have later := fun d inside => combining d (List.mem_cons_of_mem c inside)
    rw [canonicalOrder_cons, filter_insertMark (ordered_canonicalOrder later) fun d inside =>
      later d ((db.canonicalOrder_perm rest).subset inside), ih later, List.filter_cons]
    split <;> rfl

theorem filter_canonicalOrder_marks {keep : CodePoint → Bool} {marks marks' : CodePoints}
    (combining : ∀ d ∈ marks, db.combining d ≠ 0) (combining' : ∀ d ∈ marks', db.combining d ≠ 0)
    (one : marks.filter keep = [] ∨ marks'.filter keep = []) :
    (db.canonicalOrder (marks ++ marks')).filter keep =
      (db.canonicalOrder marks).filter keep ++ (db.canonicalOrder marks').filter keep := by
  have both : ∀ d ∈ marks ++ marks', db.combining d ≠ 0 := by
    intro d member
    exact (List.mem_append.mp member).elim (combining d) (combining' d)
  rw [filter_canonicalOrder both, filter_canonicalOrder combining, filter_canonicalOrder combining',
    List.filter_append]
  rcases one with none | none <;> simp [none, CharacterData.canonicalOrder]

/-- Two texts are ordered apart when no kept mark of one meets a kept mark of the other. -/
theorem filter_canonicalOrder_append {keep : CodePoint → Bool} {first second : CodePoints}
    (apart : (∀ c ∈ (db.canonicalOrder first).filter keep, db.combining c = 0) ∨
      db.AtStarter ((db.canonicalOrder second).filter keep)) :
    (db.canonicalOrder (first ++ second)).filter keep =
      (db.canonicalOrder first).filter keep ++ (db.canonicalOrder second).filter keep := by
  obtain ⟨front, marks, rfl, combining, ends⟩ := exists_trailing db first
  obtain ⟨marks', back, rfl, combining', starts⟩ := exists_leading db second
  have one : marks.filter keep = [] ∨ marks'.filter keep = [] := by
    refine apart.imp (fun steady => ?_) fun starts' => ?_
    · refine List.filter_eq_nil_iff.mpr fun c member kept => combining c member (steady c ?_)
      refine List.mem_filter.mpr ⟨(db.canonicalOrder_perm _).symm.subset ?_, kept⟩
      exact List.mem_append_right front member
    · rw [canonicalOrder_append starts, List.filter_append, filter_canonicalOrder combining']
        at starts'
      by_contra some
      have there : db.canonicalOrder (marks'.filter keep) ≠ [] := fun none => some
        (List.Perm.nil_eq (none ▸ db.canonicalOrder_perm _)).symm
      obtain ⟨head, more, same⟩ := List.exists_cons_of_ne_nil there
      have inside : head ∈ marks' := by
        have listed : head ∈ db.canonicalOrder (marks'.filter keep) := same ▸ List.mem_cons_self
        exact List.mem_of_mem_filter ((db.canonicalOrder_perm _).subset listed)
      rw [same] at starts'
      exact combining' head inside (starts' head rfl)
  have cut : front ++ marks ++ (marks' ++ back) = front ++ ((marks ++ marks') ++ back) := by
    simp only [List.append_assoc]
  rw [cut, ends, canonicalOrder_append starts, ends, canonicalOrder_append starts]
  simp only [List.filter_append]
  rw [filter_canonicalOrder_marks combining combining' one]
  simp only [List.append_assoc]

end Ordering

section Stripping

variable {db}

theorem stripMarks_append {first second : CodePoints}
    (apart : (∀ c ∈ db.stripMarks first, db.combining c = 0) ∨
      db.AtStarter (db.stripMarks second)) :
    db.stripMarks (first ++ second) = db.stripMarks first ++ db.stripMarks second := by
  rw [stripMarks, nfd, List.flatMap_append]
  exact filter_canonicalOrder_append apart

/-- A text is stripped part by part when each part leaves no mark at its end or none follows. -/
theorem stripMarks_flatten {texts : List CodePoints}
    (apart : ∀ front text later, texts = front ++ text :: later →
      (∀ c ∈ db.stripMarks text, db.combining c = 0) ∨
        db.AtStarter (later.flatMap db.stripMarks)) :
    db.stripMarks texts.flatten = texts.flatMap db.stripMarks := by
  induction texts with
  | nil => rfl
  | cons text later ih =>
    obtain ⟨here, rest⟩ := forall_split_cons.mp apart
    have stripped := ih rest
    rw [List.flatten_cons, List.flatMap_cons, ← stripped]
    refine stripMarks_append ?_
    rw [stripped]
    exact here

theorem filter_insertMark_starters {p : CodePoint → Bool}
    (starters : ∀ c, p c = true → db.combining c = 0) (c : CodePoint) (text : CodePoints) :
    (db.insertMark c text).filter p = (c :: text).filter p := by
  by_cases starter : db.combining c = 0
  · rw [insertMark_starter starter]
  · have other : p c = false := Bool.eq_false_iff.mpr (mt (starters c) starter)
    rw [List.filter_cons_of_neg (by simp [other])]
    induction text with
    | nil => simp [insertMark, other]
    | cons next rest ih =>
      rw [insertMark]
      split
      · rw [List.filter_cons, List.filter_cons, ih]
      · rw [List.filter_cons_of_neg (by simp [other])]

/-- Starters are not reordered. -/
theorem filter_stripMarks_starters {p : CodePoint → Bool}
    (starters : ∀ c, p c = true → db.combining c = 0) (text : CodePoints) :
    (db.stripMarks text).filter p =
      text.flatMap fun c => ((db.decompose c).filter fun d => db.category d ≠ .mn).filter p := by
  have kept : ∀ marks, (db.canonicalOrder marks).filter p = marks.filter p := by
    intro marks
    induction marks with
    | nil => rfl
    | cons c rest ih =>
      rw [canonicalOrder_cons, filter_insertMark_starters starters, List.filter_cons,
        List.filter_cons, ih]
  rw [stripMarks, nfd, List.filter_comm, kept, List.filter_comm, List.filter_flatMap,
    List.filter_flatMap]

end Stripping

section Lowering

/-- One character in lower case, given what stands around it. -/
def lowerAt (before : CodePoints) (c : CodePoint) (after : CodePoints) : CodePoints :=
  if c = capitalSigma then [if db.isFinal before after then smallFinalSigma else smallSigma]
  else db.lowerMap c

/-- A part of a text in lower case. -/
def lowerIn : CodePoints → CodePoints → CodePoints → CodePoints
  | _, [], _ => []
  | before, c :: rest, after =>
    db.lowerAt before c (rest ++ after) ++ lowerIn (before ++ [c]) rest after

/-- The capital sigmas of a text are final in one place exactly when they are in the other. -/
def SameFinals (before after before' after' text : CodePoints) : Prop :=
  ∀ front c back, text = front ++ c :: back → c = capitalSigma →
    db.isFinal (before ++ front) (back ++ after) = db.isFinal (before' ++ front) (back ++ after')

variable {db} {before after before' after' : CodePoints}

theorem lowerIn_nil (before text : CodePoints) :
    db.lowerIn before text [] = db.lowerFrom before text := by
  induction text generalizing before with
  | nil => rfl
  | cons c rest ih => rw [lowerIn, lowerFrom, ih, List.append_nil, lowerAt]

theorem lowerIn_append (before first second after : CodePoints) :
    db.lowerIn before (first ++ second) after =
      db.lowerIn before first (second ++ after) ++ db.lowerIn (before ++ first) second after := by
  induction first generalizing before with
  | nil => rw [List.nil_append, lowerIn, List.nil_append, List.append_nil]
  | cons c rest ih =>
    rw [List.cons_append, lowerIn, lowerIn, ih, List.append_assoc, List.append_assoc,
      List.append_assoc, List.singleton_append]

theorem sameFinals_cons {c : CodePoint} {rest : CodePoints} :
    db.SameFinals before after before' after' (c :: rest) ↔
      (c = capitalSigma → db.isFinal before (rest ++ after) = db.isFinal before' (rest ++ after')) ∧
        db.SameFinals (before ++ [c]) after (before' ++ [c]) after' rest := by
  simp only [SameFinals, List.append_assoc, List.singleton_append]
  rw [forall_split_cons, List.append_nil, List.append_nil]

section Seen

variable {seen : CodePoint → CodePoints} (small : seen smallSigma = [smallSigma])
  (final : seen smallFinalSigma = [smallFinalSigma])

include small final

theorem length_flatMap_lowerAt (before before' : CodePoints) (c : CodePoint)
    (after after' : CodePoints) :
    ((db.lowerAt before c after).flatMap seen).length =
      ((db.lowerAt before' c after').flatMap seen).length := by
  unfold lowerAt
  split
  · split <;> split <;> simp [small, final]
  · rfl

theorem flatMap_lowerAt_eq_iff {c : CodePoint} :
    (db.lowerAt before c after).flatMap seen = (db.lowerAt before' c after').flatMap seen ↔
      (c = capitalSigma → db.isFinal before after = db.isFinal before' after') := by
  have different : smallFinalSigma ≠ smallSigma := by decide
  unfold lowerAt
  split
  · rename_i sigma
    cases db.isFinal before after <;> cases db.isFinal before' after' <;>
      simp [small, final, sigma, different, different.symm]
  · rename_i other
    simp [other]

theorem length_flatMap_lowerIn (before before' text after after' : CodePoints) :
    ((db.lowerIn before text after).flatMap seen).length =
      ((db.lowerIn before' text after').flatMap seen).length := by
  induction text generalizing before before' with
  | nil => rfl
  | cons c rest ih =>
    rw [lowerIn, lowerIn, List.flatMap_append, List.flatMap_append, List.length_append,
      List.length_append, ih (before ++ [c]) (before' ++ [c]),
      length_flatMap_lowerAt small final before before']

theorem flatMap_lowerIn_eq_iff {text : CodePoints} :
    (db.lowerIn before text after).flatMap seen = (db.lowerIn before' text after').flatMap seen ↔
      db.SameFinals before after before' after' text := by
  induction text generalizing before before' with
  | nil => simp [lowerIn, SameFinals]
  | cons c rest ih =>
    rw [lowerIn, lowerIn, List.flatMap_append, List.flatMap_append, sameFinals_cons, ← ih,
      ← flatMap_lowerAt_eq_iff small final]
    exact List.append_eq_append_iff_of_size_eq_left (length_flatMap_lowerAt small final ..)

/-- A text in lower case is its parts in lower case exactly when the capital sigmas of each part
are final in it as they are in the whole. -/
theorem flatMap_lower_flatten_iff {texts : List CodePoints} :
    (db.lowerIn before texts.flatten after).flatMap seen =
        (texts.flatMap db.lower).flatMap seen ↔
      ∀ earlier text later, texts = earlier ++ text :: later →
        db.SameFinals (before ++ earlier.flatten) (later.flatten ++ after) [] [] text := by
  induction texts generalizing before with
  | nil => simp [lowerIn]
  | cons text later ih =>
    rw [forall_split_cons, List.flatten_cons, lowerIn_append, List.flatMap_append,
      List.flatMap_cons, List.flatMap_append, lower, ← lowerIn_nil]
    rw [List.append_eq_append_iff_of_size_eq_left (length_flatMap_lowerIn small final ..),
      flatMap_lowerIn_eq_iff small final, ih, List.flatten_nil, List.append_nil]
    simp only [List.flatten_cons, List.append_assoc]

end Seen

def isSmallSigma (c : CodePoint) : Bool := c = smallSigma ∨ c = smallFinalSigma

theorem combining_smallSigma (c : CodePoint) (sigma : isSmallSigma c = true) :
    db.combining c = 0 := by
  apply db.starter
  rcases of_decide_eq_true sigma with rfl | rfl
  · rw [db.sigma_ll]
    rfl
  · rw [db.finalSigma_ll]
    rfl

/-- The capital sigmas of each part are final in it as they are in the whole. -/
def FinalsKept (db : CharacterData) (texts : List CodePoints) : Prop :=
  ∀ earlier text later, texts = earlier ++ text :: later →
    db.SameFinals earlier.flatten later.flatten [] [] text

theorem finalsKept_iff (seen : CodePoint → CodePoints) (small : seen smallSigma = [smallSigma])
    (final : seen smallFinalSigma = [smallFinalSigma]) (texts : List CodePoints) :
    db.FinalsKept texts ↔
      (db.lower texts.flatten).flatMap seen = (texts.flatMap db.lower).flatMap seen := by
  rw [lower, ← lowerIn_nil, flatMap_lower_flatten_iff small final]
  simp only [FinalsKept, List.nil_append, List.append_nil]

/-- A text is put in lower case part by part exactly when the final sigmas are the same. -/
theorem lower_flatten_iff (texts : List CodePoints) :
    db.lower texts.flatten = texts.flatMap db.lower ↔ db.FinalsKept texts := by
  rw [finalsKept_iff (fun c => [c]) rfl rfl, List.flatMap_singleton', List.flatMap_singleton']

/-- So it is when the marks are stripped afterwards: the sigmas are still there. -/
theorem stripMarks_lower_flatten_iff {texts : List CodePoints}
    (apart : db.stripMarks (texts.map db.lower).flatten =
      (texts.map db.lower).flatMap db.stripMarks) :
    db.stripMarks (db.lower texts.flatten) =
        texts.flatMap (fun text => db.stripMarks (db.lower text)) ↔ db.FinalsKept texts := by
  rw [List.flatMap_map, ← List.flatMap_def] at apart
  rw [← apart]
  constructor
  · intro same
    have left := congrArg (List.filter isSmallSigma) same
    rw [filter_stripMarks_starters combining_smallSigma,
      filter_stripMarks_starters combining_smallSigma] at left
    refine (finalsKept_iff _ ?_ ?_ texts).mpr left
    · simp [isSmallSigma, db.decompose_sigma, db.sigma_ll]
    · simp [isSmallSigma, db.decompose_finalSigma, db.finalSigma_ll]
  · exact fun kept => congrArg db.stripMarks ((lower_flatten_iff texts).mpr kept)

end Lowering

end CharacterData

end Foundation
