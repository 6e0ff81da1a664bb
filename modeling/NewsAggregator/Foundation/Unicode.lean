import Mathlib.Algebra.GroupWithZero.Nat
import Mathlib.Data.List.Perm.Basic

/-! Texts of code points and the Unicode algorithms on them: full lower casing with the
final sigma, and canonical decomposition. The character database is a parameter. -/

namespace Foundation

instance codeSpace_neZero : NeZero 0x110000 := ⟨by decide⟩

abbrev CodePoint := Fin 0x110000

abbrev CodePoints := List CodePoint

/-- `General_Category`. -/
inductive Category where
  | lu | ll | lt | lm | lo
  | mn | mc | me
  | nd | nl | no
  | pc | pd | ps | pe | pi | pf | po
  | sm | sc | sk | so
  | zs | zl | zp
  | cc | cf | cs | co | cn
  deriving DecidableEq

/-- The categories that start with `C`. -/
def Category.isOther : Category → Bool
  | .cc | .cf | .cs | .co | .cn => true
  | _ => false

/-- The categories that start with `P`. -/
def Category.isPunctuation : Category → Bool
  | .pc | .pd | .ps | .pe | .pi | .pf | .po => true
  | _ => false

/-- The categories that start with `M`. -/
def Category.isMark : Category → Bool
  | .mn | .mc | .me => true
  | _ => false

def capitalSigma : CodePoint := 0x3A3
def smallSigma : CodePoint := 0x3C3
def smallFinalSigma : CodePoint := 0x3C2
def blank : CodePoint := 0x20
def replacement : CodePoint := 0xFFFD

/-- The properties of the character database the algorithms read. -/
structure CharacterData where
  category : CodePoint → Category
  /-- `Canonical_Combining_Class`. -/
  combining : CodePoint → ℕ
  /-- The full canonical decomposition of a character. -/
  decompose : CodePoint → CodePoints
  /-- The full lower-case mapping without conditions. -/
  lowerMap : CodePoint → CodePoints
  cased : CodePoint → Bool
  caseIgnorable : CodePoint → Bool
  nul_cc : category 0 = .cc
  sigma_ll : category smallSigma = .ll
  finalSigma_ll : category smallFinalSigma = .ll
  replacement_so : category replacement = .so
  decompose_sigma : decompose smallSigma = [smallSigma]
  decompose_finalSigma : decompose smallFinalSigma = [smallFinalSigma]
  decompose_replacement : decompose replacement = [replacement]
  lowerMap_replacement : lowerMap replacement = [replacement]
  /-- Only marks have a combining class. -/
  starter : ∀ c, (category c).isMark = false → combining c = 0
  ascii_not_mark : ∀ c < 128, (category c).isMark = false

namespace CharacterData

variable (db : CharacterData)

/-- `Final_Sigma`: a cased letter before and none after, but for ignorable characters. -/
def isFinal (before after : CodePoints) : Bool :=
  (before.reverse.dropWhile db.caseIgnorable).head?.any db.cased &&
    !(after.dropWhile db.caseIgnorable).head?.any db.cased

/-- The rest of a text in lower case, given what stands before it. -/
def lowerFrom : CodePoints → CodePoints → CodePoints
  | _, [] => []
  | before, c :: rest =>
    (if c = capitalSigma then
      [if db.isFinal before rest then smallFinalSigma else smallSigma]
    else db.lowerMap c) ++ lowerFrom (before ++ [c]) rest

def lower (text : CodePoints) : CodePoints := db.lowerFrom [] text

/-- A mark moves behind the marks of lower class that follow it. -/
def insertMark (c : CodePoint) : CodePoints → CodePoints
  | [] => [c]
  | next :: rest =>
    if 0 < db.combining next ∧ db.combining next < db.combining c then
      next :: insertMark c rest
    else c :: next :: rest

/-- The canonical ordering: stable by combining class between the starters. -/
def canonicalOrder (text : CodePoints) : CodePoints := text.foldr db.insertMark []

/-- Normalization form D. -/
def nfd (text : CodePoints) : CodePoints := db.canonicalOrder (text.flatMap db.decompose)

/-- The form D without its nonspacing marks. -/
def stripMarks (text : CodePoints) : CodePoints :=
  (db.nfd text).filter fun c => db.category c ≠ .mn

theorem insertMark_perm (c : CodePoint) (text : CodePoints) :
    (db.insertMark c text).Perm (c :: text) := by
  induction text with
  | nil => exact List.Perm.refl _
  | cons next rest ih =>
    rw [insertMark]
    split
    · exact (ih.cons next).trans (List.Perm.swap c next rest)
    · exact List.Perm.refl _

theorem canonicalOrder_perm (text : CodePoints) : (db.canonicalOrder text).Perm text := by
  induction text with
  | nil => exact List.Perm.refl _
  | cons c rest ih => exact (db.insertMark_perm c _).trans (ih.cons c)

section Counts

variable {p : CodePoint → Bool}

/-- How many characters of a kind one character leaves in the stripped form. -/
def strippedCount (p : CodePoint → Bool) (c : CodePoint) : ℕ :=
  ((db.decompose c).filter fun d => db.category d ≠ .mn).countP p

/-- Reordering changes no count: the stripped form has of a kind what its characters make. -/
theorem countP_stripMarks (text : CodePoints) :
    (db.stripMarks text).countP p = (text.map (db.strippedCount p)).sum := by
  have ordered := (db.canonicalOrder_perm (text.flatMap db.decompose)).filter
    fun c => decide (db.category c ≠ .mn)
  rw [stripMarks, nfd, ordered.countP_eq]
  clear ordered
  induction text with
  | nil => rfl
  | cons c rest ih =>
    rw [List.flatMap_cons, List.filter_append, List.countP_append, ih, List.map_cons,
      List.sum_cons, strippedCount]

/-- What one character adds to a sum over the text in lower case. -/
def lowerWeight (weight : CodePoint → ℕ) (c : CodePoint) : ℕ :=
  if c = capitalSigma then weight smallSigma else ((db.lowerMap c).map weight).sum

/-- Where the two small sigmas weigh alike, what stands around a character does not matter. -/
theorem sum_lowerFrom {weight : CodePoint → ℕ} (alike : weight smallFinalSigma = weight smallSigma)
    (before text : CodePoints) :
    ((db.lowerFrom before text).map weight).sum = (text.map (db.lowerWeight weight)).sum := by
  induction text generalizing before with
  | nil => rfl
  | cons c rest ih =>
    rw [lowerFrom, List.map_append, List.sum_append, ih, List.map_cons, List.sum_cons, lowerWeight]
    split
    · split
      · simp [alike]
      · simp
    · rfl

theorem strippedCount_sigmas (alike : p smallFinalSigma = p smallSigma) :
    db.strippedCount p smallFinalSigma = db.strippedCount p smallSigma := by
  simp [strippedCount, db.decompose_sigma, db.decompose_finalSigma, db.sigma_ll, db.finalSigma_ll,
    List.countP_singleton, alike]

end Counts

/-- The category of a character of ASCII or of a soft hyphen. -/
def asciiCategory (c : CodePoint) : Category :=
  if c = blank then .zs
  else if c < 32 ∨ c = 127 then .cc
  else if c = 0xAD then .cf
  else if c = replacement then .so
  else if 48 ≤ c ∧ c ≤ 57 then .nd
  else if 65 ≤ c ∧ c ≤ 90 then .lu
  else if 97 ≤ c ∧ c ≤ 122 then .ll
  else if c ≤ 126 then .po
  else .ll

theorem asciiCategory_not_mark (c : CodePoint) : (asciiCategory c).isMark = false := by
  unfold asciiCategory
  split_ifs <;> rfl

/-- The database as far as plain ASCII letters, digits, blanks, common punctuation and the
soft hyphen go. -/
def ascii : CharacterData where
  category := asciiCategory
  combining _ := 0
  decompose c := [c]
  lowerMap c := if 65 ≤ c ∧ c ≤ 90 then [c + 32] else [c]
  cased c := (65 ≤ c ∧ c ≤ 90) ∨ (97 ≤ c ∧ c ≤ 122)
  caseIgnorable c := c ∈ [0x27, 0x2E, 0x3A, 0x5E, 0x60, 0xAD]
  nul_cc := rfl
  sigma_ll := rfl
  finalSigma_ll := rfl
  replacement_so := rfl
  decompose_sigma := rfl
  decompose_finalSigma := rfl
  decompose_replacement := rfl
  lowerMap_replacement := rfl
  starter _ _ := rfl
  ascii_not_mark c _ := asciiCategory_not_mark c

end CharacterData

end Foundation
