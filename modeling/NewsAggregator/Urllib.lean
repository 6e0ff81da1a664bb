import Mathlib.Data.List.DropRight
import NewsAggregator.Foundation.Joining
import NewsAggregator.Python

/-! What `urllib.parse` does: `urlsplit` up to what makes it raise, and `urlencode`. -/

namespace NewsAggregator.Urllib

open Foundation

/-- `_WHATWG_C0_CONTROL_OR_SPACE`. -/
def isC0OrSpace (c : Char) : Bool := c.toNat ≤ 32

/-- `_UNSAFE_URL_BYTES_TO_REMOVE`. -/
def isRemoved (c : Char) : Bool := c = '\t' ∨ c = '\r' ∨ c = '\n'

def schemeChar (c : Char) : Bool := c.isAlphanum ∨ c ∈ ['+', '-', '.']

def clean (url : List Char) : List Char :=
  (url.dropWhile isC0OrSpace).filter fun c => !isRemoved c

def isScheme (scheme : List Char) : Bool :=
  scheme.head?.any Char.isAlpha && scheme.all schemeChar

/-- The text after the scheme, where there is one. -/
def afterScheme (url : List Char) : List Char :=
  match url.dropWhile (· ≠ ':') with
  | [] => url
  | _ :: rest => if isScheme (url.takeWhile (· ≠ ':')) then rest else url

def isDelimiter (c : Char) : Bool := c = '/' ∨ c = '?' ∨ c = '#'

/-- The network location and what follows it. -/
def splitNetloc : List Char → List Char × List Char
  | '/' :: '/' :: rest =>
    (rest.takeWhile fun c => !isDelimiter c, rest.dropWhile fun c => !isDelimiter c)
  | url => ([], url)

/-- The parts after the scheme; the fragment is not kept. -/
def splitParts (accepts : String → Bool) (url : List Char) : Option SplitResult :=
  let (netloc, rest) := splitNetloc url
  if accepts (String.ofList netloc) then
    let rest := rest.takeWhile (· ≠ '#')
    some {
      netloc := String.ofList netloc
      path := String.ofList (rest.takeWhile (· ≠ '?'))
      query := String.ofList ((rest.dropWhile (· ≠ '?')).drop 1) }
  else none

/-- `urlsplit`, which raises `ValueError` where it does not accept the network location. -/
def urlsplit (accepts : String → Bool) (url : String) : Option SplitResult :=
  splitParts accepts (afterScheme (clean url.toList))

/-- `_ALWAYS_SAFE`. -/
def alwaysSafe (b : UInt8) : Bool :=
  (Char.ofNat b.toNat).isAlphanum ∨ Char.ofNat b.toNat ∈ ['_', '.', '-', '~']

def hexDigit (n : ℕ) : Char := Char.ofNat (if n < 10 then 48 + n else 55 + n)

def quoteByte (b : UInt8) : List Char :=
  if b = 32 then ['+']
  else if alwaysSafe b then [Char.ofNat b.toNat]
  else ['%', hexDigit (b.toNat / 16), hexDigit (b.toNat % 16)]

/-- `quote_plus`. -/
def quotePlus (text : String) : List Char := text.toUTF8.data.toList.flatMap quoteByte

def urlencode (pairs : List (String × String)) : String :=
  String.ofList
    (['&'].intercalate (pairs.map fun pair => quotePlus pair.1 ++ '=' :: quotePlus pair.2))

section Encoding

/-- The byte a code word of `quote_plus` stands for. -/
def unquoteByte : List Char → UInt8
  | ['+'] => 32
  | [c] => UInt8.ofNat c.toNat
  | ['%', high, low] =>
    let value (c : Char) := if c.toNat < 58 then c.toNat - 48 else c.toNat - 55
    UInt8.ofNat (value high * 16 + value low)
  | _ => 0

theorem unquote_quoteByte (b : UInt8) : unquoteByte (quoteByte b) = b := by
  have checked : ∀ n : Fin 256, unquoteByte (quoteByte (UInt8.ofFin n)) = UInt8.ofFin n := by
    decide +kernel
  exact checked b.toFin

/-- Neither separator of a query is in a code word. -/
theorem separators_not_mem_quoteByte (b : UInt8) : '&' ∉ quoteByte b ∧ '=' ∉ quoteByte b := by
  have checked : ∀ n : Fin 256,
      '&' ∉ quoteByte (UInt8.ofFin n) ∧ '=' ∉ quoteByte (UInt8.ofFin n) := by decide +kernel
  exact checked b.toFin

theorem quoteByte_shape (b : UInt8) :
    (∃ c, quoteByte b = [c] ∧ c ≠ '%') ∨ ∃ high low, quoteByte b = ['%', high, low] := by
  rw [quoteByte]
  split
  · exact .inl ⟨'+', rfl, by decide⟩
  · split
    · rename_i safe
      refine .inl ⟨_, rfl, fun percent => ?_⟩
      rw [alwaysSafe, percent] at safe
      exact absurd safe (by decide)
    · exact .inr ⟨_, _, rfl⟩

theorem prefixFree_quoteByte : PrefixFree quoteByte := by
  intro a b rest rest' same
  have inj : quoteByte a = quoteByte b → a = b := fun equal => by
    rw [← unquote_quoteByte a, equal, unquote_quoteByte]
  rcases quoteByte_shape a with ⟨c, single, plain⟩ | ⟨high, low, triple⟩ <;>
    rcases quoteByte_shape b with ⟨d, single', plain'⟩ | ⟨high', low', triple'⟩
  · rw [single, single'] at same
    obtain ⟨rfl, tails⟩ := List.cons.inj same
    exact ⟨inj (single.trans single'.symm), tails⟩
  · rw [single, triple'] at same
    exact absurd (List.cons.inj same).1 plain
  · rw [triple, single'] at same
    exact absurd (List.cons.inj same).1.symm plain'
  · rw [triple, triple'] at same
    simp only [List.cons_append, List.nil_append, List.cons.injEq, true_and] at same
    obtain ⟨rfl, rfl, tails⟩ := same
    exact ⟨inj (triple.trans triple'.symm), tails⟩

theorem quotePlus_injective : Function.Injective quotePlus := by
  intro first second same
  have nonempty : ∀ b, quoteByte b ≠ [] := by
    intro b
    rcases quoteByte_shape b with ⟨c, single, _⟩ | ⟨high, low, triple⟩
    · simp [single]
    · simp [triple]
  have bytes := prefixFree_quoteByte.flatMap_injective nonempty same
  refine String.toByteArray_inj.mp ?_
  exact ByteArray.ext (Array.toList_inj.mp bytes)

theorem separators_not_mem_quotePlus (text : String) :
    '&' ∉ quotePlus text ∧ '=' ∉ quotePlus text := by
  simp only [quotePlus, List.mem_flatMap, not_exists, not_and]
  exact ⟨fun b _ => (separators_not_mem_quoteByte b).1,
    fun b _ => (separators_not_mem_quoteByte b).2⟩

theorem urlencode_injective : Function.Injective urlencode := by
  let pairCode (pair : String × String) := quotePlus pair.1 ++ '=' :: quotePlus pair.2
  have joinable : ∀ pairs : List (String × String), Joinable '&' (pairs.map pairCode) := by
    intro pairs part member
    obtain ⟨pair, _, rfl⟩ := List.mem_map.mp member
    refine ⟨by simp [pairCode], ?_⟩
    have left := (separators_not_mem_quotePlus pair.1).1
    have right := (separators_not_mem_quotePlus pair.2).1
    simp [pairCode, left, right]
  have coded : Function.Injective pairCode := by
    intro first second same
    have cut : ∀ pair : String × String,
        Cut (· == '=') (quotePlus pair.1) ('=' :: quotePlus pair.2) := by
      refine fun pair => ⟨fun c member => beq_false_of_ne ?_, fun c head => ?_⟩
      · rintro rfl
        exact (separators_not_mem_quotePlus pair.1).2 member
      · rw [← Option.some.inj head]
        rfl
    obtain ⟨keys, values⟩ := (cut first).unique (cut second) same
    exact Prod.ext (quotePlus_injective keys) (quotePlus_injective (List.cons.inj values).2)
  intro first second same
  have joined := String.ofList_injective same
  exact List.map_injective_iff.mpr coded (join_inj (joinable first) (joinable second) joined)

end Encoding

section Splitting

variable {accepts : String → Bool} {url : List Char} {parts : SplitResult}

/-- The network location holds no delimiter, and what follows it is empty or starts with one,
unless there is no location at all. -/
theorem splitNetloc_cut (url : List Char) :
    (splitNetloc url).1 = [] ∨ Cut isDelimiter (splitNetloc url).1 (splitNetloc url).2 := by
  unfold splitNetloc
  split
  · rename_i rest
    refine .inr ⟨fun c member => ?_, fun c head => ?_⟩
    · simpa using List.mem_takeWhile_imp member
    · have stopped := List.head?_dropWhile_not (fun c => !isDelimiter c) rest
      rw [Option.mem_def.mp head] at stopped
      simpa using stopped
  · exact .inl rfl

/-- With a network location, the path is empty or starts with a slash, and holds no
question mark. -/
theorem splitParts_path (split : splitParts accepts url = some parts) (named : parts.netloc ≠ "") :
    (∀ c ∈ parts.netloc.toList, isDelimiter c = false) ∧
      (∀ c ∈ parts.path.toList.head?, c = '/') ∧ '?' ∉ parts.path.toList := by
  rw [splitParts] at split
  dsimp only at split
  split at split
  · obtain rfl := Option.some.inj split
    simp only [String.toList_ofList] at named ⊢
    rcases splitNetloc_cut url with none | cut
    · rw [none] at named
      exact absurd rfl named
    · refine ⟨cut.plain, fun c head => ?_, fun member => ?_⟩
      · cases follows : (splitNetloc url).2 with
        | nil => simp [follows] at head
        | cons first rest =>
          have delimiter : isDelimiter first = true := cut.starts first (by simp [follows])
          simp only [isDelimiter, Bool.decide_or, Bool.or_eq_true, decide_eq_true_eq] at delimiter
          rcases delimiter with rfl | rfl | rfl
          · rw [follows] at head
            simpa using head.symm
          · simp [follows] at head
          · simp [follows] at head
      · simpa using List.mem_takeWhile_imp member
  · cases split

theorem isScheme_head {scheme : List Char} (valid : isScheme scheme = true) :
    ∃ first rest, scheme = first :: rest ∧ first.isAlpha = true := by
  cases scheme with
  | nil => simp [isScheme] at valid
  | cons first rest =>
    simp only [isScheme, List.head?_cons, Option.any_some, Bool.and_eq_true] at valid
    exact ⟨first, rest, rfl, valid.1⟩

theorem isAlphanum_graphic {c : Char} (letter : c.isAlphanum = true) :
    32 < c.toNat ∧ c.toNat < 127 ∧ c ≠ ':' := by
  have ranges : 48 ≤ c.toNat ∧ c.toNat ≤ 122 ∧ c.toNat ≠ 58 := by
    rcases (Bool.or_eq_true _ _).mp letter with alpha | digit
    · rcases (Bool.or_eq_true _ _).mp alpha with upper | lower
      · obtain ⟨above, below⟩ : 65 ≤ c.toNat ∧ c.toNat ≤ 90 := of_decide_eq_true upper
        exact ⟨by omega, by omega, by omega⟩
      · obtain ⟨above, below⟩ := (Bool.and_eq_true _ _).mp lower
        have above' : 97 ≤ c.toNat := of_decide_eq_true above
        have below' : c.toNat ≤ 122 := of_decide_eq_true below
        exact ⟨by omega, by omega, by omega⟩
    · obtain ⟨above, below⟩ := (Bool.and_eq_true _ _).mp digit
      have above' : 48 ≤ c.toNat := of_decide_eq_true above
      have below' : c.toNat ≤ 57 := of_decide_eq_true below
      exact ⟨by omega, by omega, by omega⟩
  refine ⟨by omega, by omega, ?_⟩
  rintro rfl
  exact absurd ranges (by decide)

theorem schemeChar_graphic {c : Char} (valid : schemeChar c = true) :
    32 < c.toNat ∧ c.toNat < 127 ∧ c ≠ ':' := by
  rcases of_decide_eq_true valid with letter | mark
  · exact isAlphanum_graphic letter
  · simp only [List.mem_cons, List.not_mem_nil, or_false] at mark
    rcases mark with rfl | rfl | rfl <;> decide

theorem isScheme_graphic {scheme : List Char} (valid : isScheme scheme = true) :
    ∀ c ∈ scheme, 32 < c.toNat ∧ c.toNat < 127 ∧ c ≠ ':' := by
  simp only [isScheme, Bool.and_eq_true, List.all_eq_true] at valid
  exact fun c member => schemeChar_graphic (valid.2 c member)

theorem kept_of_graphic {c : Char} (graphic : 32 < c.toNat) : isRemoved c = false := by
  refine decide_eq_false ?_
  rintro (rfl | rfl | rfl) <;> exact absurd graphic (by decide)

theorem filter_of_graphic {text : List Char} (graphic : ∀ c ∈ text, 32 < c.toNat) :
    (text.filter fun c => !isRemoved c) = text :=
  List.filter_eq_self.mpr fun c member => by rw [kept_of_graphic (graphic c member)]; rfl

/-- A scheme is cut off, whatever it is. -/
theorem urlsplit_scheme {scheme : List Char} (valid : isScheme scheme = true) (rest : List Char) :
    urlsplit accepts (String.ofList (scheme ++ ':' :: rest)) =
      splitParts accepts (rest.filter fun c => !isRemoved c) := by
  have graphic := isScheme_graphic valid
  obtain ⟨first, more, rfl, _⟩ := isScheme_head valid
  have start : isC0OrSpace first = false :=
    decide_eq_false (not_le.mpr (graphic first List.mem_cons_self).1)
  have cleaned : clean (first :: more ++ ':' :: rest) =
      first :: more ++ ':' :: rest.filter fun c => !isRemoved c := by
    rw [clean, List.cons_append, List.dropWhile_cons_of_neg (by simp [start]), ← List.cons_append,
      List.filter_append, filter_of_graphic fun c member => (graphic c member).1]
    rfl
  have colon : ∀ c ∈ first :: more, (decide (c ≠ ':')) = true :=
    fun c member => decide_eq_true (graphic c member).2.2
  rw [urlsplit, String.toList_ofList, cleaned, afterScheme, List.dropWhile_append_of_pos colon,
    List.takeWhile_append_of_pos colon]
  simp [valid]

/-- Without a scheme, two slashes start the network location all the same. -/
theorem urlsplit_slashes (rest : List Char) :
    urlsplit accepts (String.ofList ('/' :: '/' :: rest)) =
      splitParts accepts ('/' :: '/' :: rest.filter fun c => !isRemoved c) := by
  have cleaned : clean ('/' :: '/' :: rest) = '/' :: '/' :: rest.filter fun c => !isRemoved c := rfl
  rw [urlsplit, String.toList_ofList, cleaned, afterScheme]
  split
  · rfl
  · have slash : isScheme (('/' :: '/' :: rest.filter fun c => !isRemoved c).takeWhile
        fun c => decide (c ≠ ':')) = false := rfl
    rw [if_neg (by rw [slash]; exact Bool.false_ne_true)]

theorem afterScheme_plain (plain : ':' ∉ url) : afterScheme url = url := by
  have kept : ∀ c ∈ url, (decide (c ≠ ':')) = true := by
    intro c member
    refine decide_eq_true ?_
    rintro rfl
    exact plain member
  rw [afterScheme, List.dropWhile_eq_nil_iff.mpr kept]

theorem afterScheme_colon {front : List Char} (plain : ':' ∉ front) (rest : List Char) :
    afterScheme (front ++ ':' :: rest) =
      if isScheme front then rest else front ++ ':' :: rest := by
  have kept : ∀ c ∈ front, (decide (c ≠ ':')) = true := by
    intro c member
    refine decide_eq_true ?_
    rintro rfl
    exact plain member
  rw [afterScheme, List.dropWhile_append_of_pos kept, List.takeWhile_append_of_pos kept]
  simp

/-- A colon after the first `#` ends no scheme. -/
theorem afterScheme_fragment (url fragment : List Char) :
    afterScheme (url ++ '#' :: fragment) = afterScheme url ++ '#' :: fragment := by
  by_cases colon : ':' ∈ url
  · obtain ⟨front, rest, rfl, plain⟩ := List.eq_append_cons_of_mem colon
    rw [List.append_assoc, List.cons_append, afterScheme_colon plain, afterScheme_colon plain]
    split
    · rfl
    · rw [List.append_assoc, List.cons_append]
  · rw [afterScheme_plain colon]
    by_cases later : ':' ∈ fragment
    · obtain ⟨front, rest, rfl, plain⟩ := List.eq_append_cons_of_mem later
      have grouped : url ++ '#' :: (front ++ ':' :: rest) =
          (url ++ '#' :: front) ++ ':' :: rest := by simp
      have mark : ¬ isScheme (url ++ '#' :: front) = true := by
        intro valid
        rw [isScheme, Bool.and_eq_true, List.all_eq_true] at valid
        exact absurd (valid.2 '#' (by simp)) (by decide)
      rw [grouped, afterScheme_colon (by simp [colon, plain]), if_neg mark]
    · exact afterScheme_plain (by simp [colon, later])

theorem splitNetloc_other (other : ∀ rest, url ≠ '/' :: '/' :: rest) :
    splitNetloc url = ([], url) := by
  unfold splitNetloc
  split
  · exact absurd rfl (other _)
  · rfl

theorem splitNetloc_fragment (url fragment : List Char) :
    splitNetloc (url ++ '#' :: fragment) =
      ((splitNetloc url).1, (splitNetloc url).2 ++ '#' :: fragment) := by
  let plain (c : Char) := !isDelimiter c
  have stops : plain '#' = false := by decide
  by_cases slashes : ∃ rest, url = '/' :: '/' :: rest
  · obtain ⟨rest, rfl⟩ := slashes
    exact Prod.ext (takeWhile_stop stops rest fragment) (dropWhile_stop stops rest fragment)
  · have other := not_exists.mp slashes
    have other' : ∀ rest, url ++ '#' :: fragment ≠ '/' :: '/' :: rest := by
      intro rest same
      match url with
      | [] => cases same
      | [_] => cases same
      | first :: second :: tail =>
        simp only [List.cons_append, List.cons.injEq] at same
        exact other tail (by rw [same.1, same.2.1])
    rw [splitNetloc_other other, splitNetloc_other other']

theorem splitParts_fragment (url fragment : List Char) :
    splitParts accepts (url ++ '#' :: fragment) = splitParts accepts url := by
  have same : ((splitNetloc url).2 ++ '#' :: fragment).takeWhile (fun c => decide (c ≠ '#')) =
      (splitNetloc url).2.takeWhile fun c => decide (c ≠ '#') := takeWhile_stop (by decide) _ _
  rw [splitParts, splitParts, splitNetloc_fragment]
  simp only [same]

/-- Everything from the first `#` on is left out. -/
theorem urlsplit_fragment (url fragment : List Char) :
    urlsplit accepts (String.ofList (url ++ '#' :: fragment)) =
      urlsplit accepts (String.ofList url) := by
  have cleaned : clean (url ++ '#' :: fragment) =
      clean url ++ '#' :: fragment.filter fun c => !isRemoved c := by
    rw [clean, clean, dropWhile_stop (by decide), List.filter_append]
    rfl
  rw [urlsplit, urlsplit, String.toList_ofList, String.toList_ofList, cleaned,
    afterScheme_fragment, splitParts_fragment]

end Splitting

end NewsAggregator.Urllib
