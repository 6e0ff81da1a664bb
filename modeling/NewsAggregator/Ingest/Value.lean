import Mathlib.Algebra.BigOperators.Group.List.Basic
import Mathlib.Algebra.Order.BigOperators.Group.List
import Mathlib.Algebra.Order.Field.Basic
import Mathlib.Data.Rat.Floor
import Mathlib.Tactic.Linarith
import NewsAggregator.Foundation.Raising
import NewsAggregator.Python
import NewsAggregator.Schema.Item

/-! The values of a decoded feed, what the normalizers ask of them, and what Python
raises on a value of the wrong kind. -/

namespace NewsAggregator.Ingest

open Foundation

/-- A code point of a Python string: a JSON escape can name half a surrogate pair. -/
inductive CodePoint
  | scalar (c : Char)
  | surrogate (n : Fin 2048)
  deriving DecidableEq

def CodePoint.char? : CodePoint → Option Char
  | .scalar c => some c
  | .surrogate _ => none

abbrev PyStr := List CodePoint

instance : LawfulBEq PyStr := inferInstance

namespace PyStr

def of (text : String) : PyStr := text.toList.map .scalar

/-- The string has an encoding in UTF-8. -/
def Encodes (s : PyStr) : Prop := ∀ c ∈ s, c.char?.isSome

instance : DecidablePred Encodes := fun s => List.decidableBAll _ s

/-- The text of a string that encodes. -/
def text (s : PyStr) : String := String.ofList (s.filterMap CodePoint.char?)

def startsWith (s : PyStr) (head : String) : Prop := of head <+: s

instance (s : PyStr) (head : String) : Decidable (s.startsWith head) :=
  inferInstanceAs (Decidable (_ <+: _))

/-- `s.replace("Z", "+00:00")` -/
def zulu (s : PyStr) : PyStr := s.flatMap fun c => if c = .scalar 'Z' then of "+00:00" else [c]

@[simp] theorem encodes_of (text : String) : Encodes (of text) := by
  intro c member
  obtain ⟨_, _, rfl⟩ := List.mem_map.mp member
  rfl

@[simp] theorem encodes_nil : Encodes [] := fun _ member => absurd member List.not_mem_nil

@[simp] theorem encodes_append {s t : PyStr} : Encodes (s ++ t) ↔ Encodes s ∧ Encodes t := by
  simp [Encodes, or_imp, forall_and]

theorem Encodes.take {s : PyStr} (encodes : Encodes s) (n : ℕ) : Encodes (s.take n) :=
  fun c member => encodes c (List.mem_of_mem_take member)

@[simp] theorem length_of (text : String) : (of text).length = text.length := by
  rw [of, List.length_map, String.length_toList]

theorem length_text_le (s : PyStr) : (text s).length ≤ s.length := by
  rw [text, String.length_ofList]
  exact List.length_filterMap_le _ _

end PyStr

inductive PyFloat
  | finite (x : ℚ)
  | inf (negative : Bool)
  | nan
  deriving DecidableEq

def PyFloat.within (bound : ℚ) : PyFloat → Option {x : ℚ // -bound ≤ x ∧ x ≤ bound}
  | .finite x => if inside : -bound ≤ x ∧ x ≤ bound then some ⟨x, inside⟩ else none
  | _ => none

theorem noGeohash_cap (hash : String) (none : (none : Option String) = some hash) :
    hash.length ≤ 16 := by cases none

/-- `Geo(lat=lat, lon=lon)` -/
def pointGeo (lat lon : ℚ) (latRange : -90 ≤ lat ∧ lat ≤ 90) (lonRange : -180 ≤ lon ∧ lon ≤ 180) :
    Geo where
  lat := lat
  lon := lon
  latRange := latRange
  lonRange := lonRange
  geohashCap := noGeohash_cap

/-- The `Geo` of a point that passes `-180 <= lon <= 180 and -90 <= lat <= 90`. -/
def geoAt (lon lat : PyFloat) : Option Geo := do
  let lon ← lon.within 180
  let lat ← lat.within 90
  return pointGeo lat.1 lon.1 lat.2 lon.2

inductive PyValue
  | null
  | bool (b : Bool)
  | int (n : Int)
  | float (x : PyFloat)
  | str (s : PyStr)
  | list (items : List PyValue)
  | dict (fields : List (PyStr × PyValue))

inductive PyError
  | attributeError
  | typeError
  | valueError
  | indexError
  | keyError
  | overflowError
  | unicodeEncodeError
  | validationError
  deriving DecidableEq

/-- `except (TypeError, ValueError)`, with the subclasses of `ValueError`. -/
def PyError.typeOrValue : PyError → Bool
  | .typeError | .valueError | .unicodeEncodeError | .validationError => true
  | _ => false

def PyError.typeValueOrIndex (error : PyError) : Bool :=
  error.typeOrValue || error = .indexError

namespace PyValue

def truthy : PyValue → Bool
  | null => false
  | bool b => b
  | int n => n ≠ 0
  | float x => x ≠ .finite 0
  | str s => !s.isEmpty
  | list items => !items.isEmpty
  | dict fields => !fields.isEmpty

def isStr : PyValue → Bool
  | str _ => true
  | _ => false

def isDict : PyValue → Bool
  | dict _ => true
  | _ => false

def isList : PyValue → Bool
  | list _ => true
  | _ => false

/-- The string of a value that is one. -/
def chars : PyValue → PyStr
  | str s => s
  | _ => []

/-- The list of a value that is one. -/
def items : PyValue → List PyValue
  | list items => items
  | _ => []

/-- `get` with a default, on a dictionary. -/
def getOr (value : PyValue) (name : String) (fallback : PyValue) : PyValue :=
  match value with
  | dict fields => (fields.lookup (PyStr.of name)).getD fallback
  | _ => fallback

/-- `get`, on a dictionary. -/
def get (value : PyValue) (name : String) : PyValue := value.getOr name null

/-- `==` with a string of the source. -/
def IsText (value : PyValue) (text : String) : Prop := value.isStr ∧ value.chars = PyStr.of text

instance (value : PyValue) (text : String) : Decidable (value.IsText text) :=
  inferInstanceAs (Decidable (_ ∧ _))

/-- `== 0`. -/
def isZero : PyValue → Bool
  | bool b => !b
  | int n => n = 0
  | float x => x = .finite 0
  | _ => false

def isFalse : PyValue → Bool
  | bool b => !b
  | _ => false

def isNone : PyValue → Bool
  | null => true
  | _ => false

def isNumber : PyValue → Bool
  | bool _ | int _ | float _ => true
  | _ => false

def hashable : PyValue → Bool
  | list _ | dict _ => false
  | _ => true

def iterable : PyValue → Bool
  | str _ | list _ | dict _ => true
  | _ => false

/-- What iteration gives: a string gives its characters, a dictionary its keys. -/
def elements : PyValue → List PyValue
  | str s => s.map fun c => str [c]
  | list items => items
  | dict fields => fields.map fun entry => str entry.1
  | _ => []

def orElse (first second : PyValue) : PyValue := if first.truthy then first else second

/-- A value `value or {}` makes a dictionary of. -/
def OrDict (value : PyValue) : Prop := value.truthy → value.isDict

instance : DecidablePred OrDict := fun _ => inferInstanceAs (Decidable (_ → _))

/-- A value `for _ in value or []` runs over. -/
def OrIterable (value : PyValue) : Prop := value.truthy → value.iterable

instance : DecidablePred OrIterable := fun _ => inferInstanceAs (Decidable (_ → _))

end PyValue

/-- A naive time is read as UTC. -/
structure ParsedTime where
  time : DateTime
  aware : Bool

/-- What the normalizers call in Python beyond plain text. A function that raises one
documented exception gives `none` for it. -/
structure Runtime extends Python where
  /-- `lower` on a string that need not encode. -/
  lowerAll : PyStr → PyStr
  /-- `str` of a value that is no string; `repr` escapes what does not encode. -/
  repr : PyValue → String
  /-- `none` is a `ValueError`. -/
  floatOfStr : PyStr → Option PyFloat
  /-- `none` is the `OverflowError` of an integer beyond the doubles. -/
  floatOfInt : Int → Option ℚ
  /-- `x / 1000.0` -/
  thousandth : PyFloat → PyFloat
  /-- `sum(xs) / len(xs)` -/
  mean : List ℚ → ℚ
  mean_between : ∀ bound ∈ [(90 : ℚ), 180], ∀ xs ≠ [],
    (∀ x ∈ xs, -bound ≤ x ∧ x ≤ bound) → -bound ≤ mean xs ∧ mean xs ≤ bound
  fromtimestamp : PyFloat → Except PyError DateTime
  /-- `none` is a `ValueError`. -/
  fromisoformat : PyStr → Option ParsedTime
  /-- `none` is a `ValueError`. -/
  strptime : PyStr → String → Option DateTime
  parsedateToDatetime : PyStr → Except PyError ParsedTime
  /-- `none` is the `ValueError` of a character reference with too many digits. -/
  unescape : PyStr → Option PyStr

theorem mean_exact {bound : ℚ} {xs : List ℚ} (nonempty : xs ≠ [])
    (inside : ∀ x ∈ xs, -bound ≤ x ∧ x ≤ bound) :
    -bound ≤ xs.sum / xs.length ∧ xs.sum / xs.length ≤ bound := by
  have positive : (0 : ℚ) < xs.length := by
    exact_mod_cast List.length_pos_iff.mpr nonempty
  have above := List.sum_le_card_nsmul xs bound fun x member => (inside x member).2
  have below := List.card_nsmul_le_sum xs (-bound) fun x member => (inside x member).1
  rw [nsmul_eq_mul] at above below
  rw [le_div_iff₀ positive, div_le_iff₀ positive]
  exact ⟨by linarith, by linarith⟩

/-- Python on plain ASCII, with exact arithmetic and dates from 1970 on. -/
def Runtime.plain : Runtime where
  toPython := Python.plain
  lowerAll s := s.map fun point =>
    match point with
    | .scalar c => .scalar c.toLower
    | other => other
  repr value :=
    match value with
    | .int n => toString n
    | .bool b => if b then "True" else "False"
    | _ => "None"
  floatOfStr _ := none
  floatOfInt n := if n.natAbs < 2 ^ 1024 then some n else none
  thousandth x :=
    match x with
    | .finite x => .finite (x / 1000)
    | other => other
  mean xs := xs.sum / xs.length
  mean_between _ _ _ nonempty inside := mean_exact nonempty inside
  fromtimestamp x :=
    match x with
    | .finite x =>
      if 0 ≤ x ∧ x < 253402300800 then .ok ⟨(x * 1000000).floor, 0⟩ else .error .valueError
    | .inf _ => .error .overflowError
    | .nan => .error .valueError
  fromisoformat _ := none
  strptime _ _ := none
  parsedateToDatetime _ := .error .valueError
  unescape s := some s

/-- What a call draws: an id and readings of the clock. -/
structure Fresh where
  id : Uuid
  observed : DateTime
  now : DateTime

section Operations

variable (rt : Runtime)

/-- `str(value)`, and `value` in an f-string. -/
def toStr : PyValue → PyStr
  | .str s => s
  | value => PyStr.of (rt.repr value)

def CodePoint.isSpace (point : CodePoint) : Bool := point.char?.any rt.isSpace

def stripStr (s : PyStr) : PyStr :=
  ((s.dropWhile (CodePoint.isSpace rt)).reverse.dropWhile (CodePoint.isSpace rt)).reverse

/-- The primary subtag, in lower case. -/
def primaryTag (s : PyStr) : PyStr := (rt.lowerAll s).takeWhile (· ≠ .scalar '-')

/-- An attribute of `value` is looked up that only dictionaries have. -/
def asDict (value : PyValue) : Except PyError PyValue :=
  require (value.isDict = true) .attributeError value

/-- `value or {}`, of which an attribute is looked up. -/
def orDict (value : PyValue) : Except PyError PyValue :=
  require value.OrDict .attributeError value

/-- The elements of `value or []`. -/
def orElements (value : PyValue) : Except PyError (List PyValue) :=
  require value.OrIterable .typeError value.elements

/-- `value in names`, on a frozen set. -/
def isIn (value : PyValue) (names : List PyStr) : Except PyError Bool :=
  require (value.hashable = true) .typeError (value.isStr && decide (value.chars ∈ names))

def encode (s : PyStr) : Except PyError String :=
  require s.Encodes .unicodeEncodeError s.text

def toFloat : PyValue → Except PyError PyFloat
  | .bool b => .ok (.finite (if b then 1 else 0))
  | .int n => (rt.floatOfInt n).elim (.error .overflowError) fun x => .ok (.finite x)
  | .float x => .ok x
  | .str s => (rt.floatOfStr s).elim (.error .valueError) .ok
  | _ => .error .typeError

/-- `(float(a), float(b))` -/
def floatPair (a b : PyValue) : Except PyError (PyFloat × PyFloat) := do
  let first ← toFloat rt a
  let second ← toFloat rt b
  return (first, second)

/-- `sha256` of the encoded string, the first digits. -/
def digest (s : PyStr) (digits : ℕ) : Except PyError PyStr := do
  let bytes ← encode s
  return (PyStr.of (rt.sha256 bytes)).take digits

def digestOf (s : PyStr) (digits : ℕ) : PyStr := (PyStr.of (rt.sha256 s.text)).take digits

/-- An account in its scope, hashed; empty where there is none. -/
def hashRef (scope : PyStr) (account : PyValue) : Except PyError PyStr :=
  if account.truthy then digest rt (scope ++ PyStr.of ":" ++ toStr rt account) 32 else return []

def hashRefOf (scope : PyStr) (account : PyValue) : PyStr :=
  if account.truthy then digestOf rt (scope ++ PyStr.of ":" ++ toStr rt account) 32 else []

/-- `value[i]`; the keys of a dictionary are strings. -/
def subscript (value : PyValue) (i : ℕ) : Except PyError PyValue :=
  match value with
  | .list items => items[i]?.elim (.error .indexError) .ok
  | .str s => s[i]?.elim (.error .indexError) fun c => .ok (.str [c])
  | .dict _ => .error .keyError
  | _ => .error .typeError

/-- `fromisoformat` on a string, `None` where it raises or there is none. -/
def parseIso (value : PyValue) (prepare : PyStr → PyStr) : Option ParsedTime :=
  if value.isStr then rt.fromisoformat (prepare value.chars) else none

/-- Only an aware time is kept. -/
def ParsedTime.kept (parsed : ParsedTime) : Option DateTime :=
  if parsed.aware then some parsed.time else none

end Operations

section Specs

variable {rt : Runtime} {value : PyValue}

@[simp] theorem ends_asDict {property : PyValue → Prop} :
    Ends (asDict value) property ↔ value.isDict ∧ property value := ends_require

@[simp] theorem ends_orDict {property : PyValue → Prop} :
    Ends (orDict value) property ↔ value.OrDict ∧ property value := ends_require

@[simp] theorem ends_orElements {property : List PyValue → Prop} :
    Ends (orElements value) property ↔ value.OrIterable ∧ property value.elements := ends_require

@[simp] theorem ends_isIn {names : List PyStr} {property : Bool → Prop} :
    Ends (isIn value names) property ↔
      value.hashable ∧ property (value.isStr && decide (value.chars ∈ names)) := ends_require

@[simp] theorem ends_encode {s : PyStr} {property : String → Prop} :
    Ends (encode s) property ↔ s.Encodes ∧ property s.text := ends_require

@[simp] theorem encodes_digestOf (s : PyStr) (digits : ℕ) : (digestOf rt s digits).Encodes :=
  (PyStr.encodes_of _).take digits

theorem length_digestOf_le (rt : Runtime) (s : PyStr) (digits : ℕ) :
    (digestOf rt s digits).length ≤ digits :=
  List.length_take_le digits _

@[simp] theorem ends_digest {s : PyStr} {digits : ℕ} {property : PyStr → Prop} :
    Ends (digest rt s digits) property ↔ s.Encodes ∧ property (digestOf rt s digits) := by
  simp [digest, digestOf]

theorem ends_hashRef {scope : PyStr} {account : PyValue} {property : PyStr → Prop} :
    Ends (hashRef rt scope account) property ↔
      (account.truthy → scope.Encodes ∧ (toStr rt account).Encodes) ∧
        property (hashRefOf rt scope account) := by
  rw [hashRef, hashRefOf]
  split <;> simp [*]

theorem hashRefOf_capped (rt : Runtime) (scope : PyStr) (account : PyValue) :
    (hashRefOf rt scope account).Encodes ∧ (hashRefOf rt scope account).length ≤ 32 := by
  rw [hashRefOf]
  split
  · exact ⟨encodes_digestOf _ _, length_digestOf_le _ _ _⟩
  · exact ⟨PyStr.encodes_nil, Nat.zero_le _⟩

/-- The value is an integer no double holds. -/
def Overflows (rt : Runtime) : PyValue → Prop
  | .int n => rt.floatOfInt n = none
  | _ => False

theorem escapes_toFloat (catches : PyError → Bool) (type : catches .typeError)
    (badValue : catches .valueError) (overflow : catches .overflowError = false) :
    Escapes catches (toFloat rt value) ↔ Overflows rt value := by
  cases value with
  | int n => cases floats : rt.floatOfInt n <;> simp [toFloat, Overflows, floats, overflow]
  | str s => cases floats : rt.floatOfStr s <;> simp [toFloat, Overflows, floats, badValue]
  | _ => simp [toFloat, Overflows, type]

/-- The conversion of a pair stops at an integer no double holds. -/
def PairOverflows (rt : Runtime) (a b : PyValue) : Prop :=
  Overflows rt a ∨ (Returns (toFloat rt a) ∧ Overflows rt b)

theorem escapes_floatPair {a b : PyValue} (catches : PyError → Bool) (type : catches .typeError)
    (badValue : catches .valueError) (overflow : catches .overflowError = false) :
    Escapes catches (floatPair rt a b) ↔ PairOverflows rt a b := by
  simp [floatPair, PairOverflows, escapes_toFloat catches type badValue overflow, ends_const]

end Specs

end NewsAggregator.Ingest
