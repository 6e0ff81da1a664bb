import Mathlib.Algebra.Field.Basic
import Mathlib.Data.Rat.Defs
import Mathlib.Data.List.Infix

/-! What the services call in the Python runtime and its standard library on
text and numbers, as one record of functions: Unicode tables, digests, `urllib`
and `math`. -/

namespace NewsAggregator

structure SplitResult where
  netloc : String
  path : String
  query : String
  deriving DecidableEq

structure Python where
  casefold : String → String
  lower : String → String
  strip : String → String
  /-- `\w` of a Unicode pattern. -/
  isWord : Char → Bool
  isSpace : Char → Bool
  /-- `blake2b` with an 8 byte digest, read big endian. -/
  blake2b64 : String → Nat
  sha256 : String → String
  /-- `none` where `urlsplit` raises `ValueError`. -/
  urlsplit : String → Option SplitResult
  /-- `parse_qsl` with `keep_blank_values`. -/
  parseQsl : String → List (String × String)
  urlencode : List (String × String) → String
  /-- The functions of `math`, on the doubles in use. -/
  radians : ℚ → ℚ
  sin : ℚ → ℚ
  cos : ℚ → ℚ
  asin : ℚ → ℚ
  sqrt : ℚ → ℚ

/-- The decimal literal `0.nn`. -/
def hundredths {K : Type} [Field K] (n : ℕ) : K := n / 100

/-- The maximal runs of characters of a class, left to right: `findall` of a
pattern `[class]+`. -/
def findRuns (inClass : Char → Bool) (text : List Char) : List String :=
  let (current, found) := text.foldr
    (fun c (state : List Char × List String) =>
      if inClass c then (c :: state.1, state.2)
      else if state.1.isEmpty then ([], state.2)
      else ([], String.ofList state.1 :: state.2))
    ([], [])
  if current.isEmpty then found else String.ofList current :: found

section Runs

variable {inClass : Char → Bool}

/-- What the fold of `findRuns` carries: the run it is in and the runs found. -/
def runsFrom (inClass : Char → Bool) (text : List Char) (state : List Char × List String) :
    List Char × List String :=
  text.foldr (fun c state =>
    if inClass c then (c :: state.1, state.2)
    else if state.1.isEmpty then ([], state.2)
    else ([], String.ofList state.1 :: state.2)) state

def closeRun (state : List Char × List String) : List String :=
  if state.1.isEmpty then state.2 else String.ofList state.1 :: state.2

/-- The word is a run: not empty, and of the class. -/
def IsRun (inClass : Char → Bool) (word : String) : Prop :=
  word ≠ "" ∧ ∀ c ∈ word.toList, inClass c = true

theorem findRuns_eq (text : List Char) :
    findRuns inClass text = closeRun (runsFrom inClass text ([], [])) := rfl

theorem runsFrom_word {word : List Char} (inside : ∀ c ∈ word, inClass c = true)
    (state : List Char × List String) :
    runsFrom inClass word state = (word ++ state.1, state.2) := by
  induction word with
  | nil => rfl
  | cons c rest ih =>
    have later := ih fun other member => inside other (List.mem_cons_of_mem c member)
    simp only [runsFrom, List.foldr_cons] at later ⊢
    rw [later, if_pos (inside c List.mem_cons_self)]
    rfl

theorem runsFrom_append (first second : List Char) (state : List Char × List String) :
    runsFrom inClass (first ++ second) state =
      runsFrom inClass first (runsFrom inClass second state) := List.foldr_append

theorem closeRun_outside {c : Char} (outside : inClass c = false)
    (state : List Char × List String) :
    runsFrom inClass [c] state = ([], closeRun state) := by
  obtain ⟨current, found⟩ := state
  cases current <;> simp [runsFrom, outside, closeRun]

/-- Words of the class joined by a character outside it are its runs. -/
theorem findRuns_intercalate (blank : Char) (outside : inClass blank = false)
    {words : List String}
    (inside : ∀ word ∈ words, IsRun inClass word) :
    findRuns inClass ((String.singleton blank).intercalate words).toList = words := by
  induction words with
  | nil => simp [findRuns]
  | cons word rest ih =>
    obtain ⟨⟨nonempty, here⟩, later⟩ := List.forall_mem_cons.mp inside
    have some : word.toList.isEmpty = false := by simpa using nonempty
    cases rest with
    | nil =>
      rw [String.intercalate_singleton, findRuns_eq, runsFrom_word here]
      simp [closeRun, some]
    | cons next more =>
      rw [String.intercalate_cons_cons, String.toList_append, String.toList_append,
        String.toList_singleton, findRuns_eq, List.append_assoc, runsFrom_append, runsFrom_append,
        closeRun_outside outside, ← findRuns_eq, ih later, runsFrom_word here]
      simp [closeRun, some]

theorem mem_intercalate_runs (blank : Char) {words : List String}
    (inside : ∀ word ∈ words, IsRun inClass word) :
    ∀ c ∈ ((String.singleton blank).intercalate words).toList, inClass c = true ∨ c = blank := by
  induction words with
  | nil => simp
  | cons word rest ih =>
    obtain ⟨here, later⟩ := List.forall_mem_cons.mp inside
    intro c member
    cases rest with
    | nil =>
      rw [String.intercalate_singleton] at member
      exact .inl (here.2 c member)
    | cons next more =>
      rw [String.intercalate_cons_cons, String.toList_append, String.toList_append,
        String.toList_singleton, List.mem_append, List.mem_append, List.mem_singleton] at member
      rcases member with (word | joint) | after
      · exact .inl (here.2 c word)
      · exact .inr joint
      · exact ih later c after

theorem closeRun_runs {state : List Char × List String}
    (inside : ∀ c ∈ state.1, inClass c = true) (runs : ∀ word ∈ state.2, IsRun inClass word) :
    ∀ word ∈ closeRun state, IsRun inClass word := by
  intro word member
  rw [closeRun] at member
  split at member
  · exact runs word member
  · rename_i some
    rcases List.mem_cons.mp member with rfl | later
    · refine ⟨fun empty => some ?_, by rwa [String.toList_ofList]⟩
      rw [List.isEmpty_iff, ← String.toList_ofList (l := state.1), empty]
      rfl
    · exact runs word later

theorem mem_findRuns {text : List Char} : ∀ word ∈ findRuns inClass text, IsRun inClass word := by
  have carried : (∀ c ∈ (runsFrom inClass text ([], [])).1, inClass c = true) ∧
      ∀ word ∈ (runsFrom inClass text ([], [])).2, IsRun inClass word := by
    induction text with
    | nil => simp [runsFrom]
    | cons c rest ih =>
      rw [← List.singleton_append, runsFrom_append]
      cases here : inClass c with
      | true =>
        rw [runsFrom_word (by simpa using here)]
        exact ⟨List.forall_mem_cons.mpr ⟨here, ih.1⟩, ih.2⟩
      | false =>
        rw [closeRun_outside here]
        exact ⟨by simp, closeRun_runs ih.1 ih.2⟩
  exact closeRun_runs carried.1 carried.2

end Runs

def removePrefix (start text : String) : String :=
  if start.toList <+: text.toList then String.ofList (text.toList.drop start.length) else text

def startsWithAny (starts : List String) (text : String) : Bool :=
  starts.any fun start => decide (start.toList <+: text.toList)

def rstripChar (c : Char) (text : String) : String :=
  String.ofList (text.toList.reverse.dropWhile (· == c)).reverse

/-- Python on plain text: ASCII, and without the words and links that would reach
the digests, `urllib` or `math`. -/
def Python.plain : Python where
  casefold text := String.ofList (text.toList.map Char.toLower)
  lower text := String.ofList (text.toList.map Char.toLower)
  strip text := String.ofList (((text.toList.dropWhile Char.isWhitespace).reverse.dropWhile
    Char.isWhitespace).reverse)
  isWord c := c.isAlphanum || c == '_'
  isSpace c := c.isWhitespace
  blake2b64 _ := 0
  sha256 text := text
  urlsplit _ := none
  parseQsl _ := []
  urlencode _ := ""
  radians x := x
  sin x := x
  cos x := x
  asin x := x
  sqrt x := x

theorem toLower_toLower (c : Char) : c.toLower.toLower = c.toLower := by
  by_cases upper : c.val ≥ 'A'.val ∧ c.val ≤ 'Z'.val
  · have lower : c.toLower.val = c.val + ('a'.val - 'A'.val) := congrArg Char.val (dif_pos upper)
    have above : ¬ (c.toLower.val ≥ 'A'.val ∧ c.toLower.val ≤ 'Z'.val) := by
      rw [lower]
      simp only [ge_iff_le, UInt32.le_iff_toNat_le, UInt32.toNat_add, seval] at upper ⊢
      omega
    exact dif_neg above
  · have same : c.toLower = c := dif_neg upper
    rw [same, same]

/-- Folding twice is folding once. -/
theorem Python.plain_casefold (text : String) :
    Python.plain.casefold (Python.plain.casefold text) = Python.plain.casefold text := by
  simp only [Python.plain, String.toList_ofList, List.map_map, Function.comp_def, toLower_toLower]

end NewsAggregator
