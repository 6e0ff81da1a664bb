import Mathlib.Data.List.DropRight
import Mathlib.Data.List.Forall2
import NewsAggregator.Foundation.FirstWins
import NewsAggregator.Ingest.Press

/-! The RSS parser of the press feeds: the children of an item by their names without
the namespace, of which the first of a name is read. -/

namespace NewsAggregator.Ingest

open Foundation

namespace Rss

/-- A name of a document. No part of it after the namespace has a brace. -/
structure QName where
  space : Option PyStr
  base : PyStr
  unbraced : CodePoint.scalar '}' ∉ base
  deriving DecidableEq

/-- A name of the source in no namespace. -/
def QName.plain (base : String) (unbraced : CodePoint.scalar '}' ∉ PyStr.of base) : QName :=
  ⟨none, PyStr.of base, unbraced⟩

/-- The tag ElementTree makes of a name. -/
def QName.tag (name : QName) : PyStr :=
  name.space.elim name.base fun space => PyStr.of "\x7b" ++ space ++ PyStr.of "\x7d" ++ name.base

/-- An element with what the parser reads of it. -/
inductive Element
  | mk (name : QName) (text : Option PyStr) (children : List Element)

namespace Element

def name : Element → QName
  | mk name _ _ => name

def text : Element → Option PyStr
  | mk _ text _ => text

def children : Element → List Element
  | mk _ _ children => children

def tag (element : Element) : PyStr := element.name.tag

mutual

/-- The element and what is below it, in document order. -/
def iter : Element → List Element
  | mk name text children => mk name text children :: iterAll children

def iterAll : List Element → List Element
  | [] => []
  | child :: rest => child.iter ++ iterAll rest

end

end Element

structure Response where
  contentType : Option PyStr
  /-- The number of bytes of the body. -/
  size : ℕ
  text : PyStr

/-- `ValueError` of the parser, or what the XML library raises. -/
inductive RssError (ε : Type)
  | valueError (message : PyStr)
  | parsing (error : ε)

/-- The XML library, and `lower` where it says what it does to ASCII. -/
structure XmlRuntime (ε : Type) extends Runtime where
  fromstring : PyStr → Except ε Element
  /-- `{s!r}` -/
  reprStr : PyStr → PyStr
  lower_ascii : ∀ text : List Char, (∀ c ∈ text, c.toNat < 128) →
    lowerAll (text.map .scalar) = text.map fun c => .scalar c.toLower

section Code

variable {ε : Type} (rt : XmlRuntime ε)

/-- `_WANTED` -/
def wanted : List PyStr :=
  ["title", "link", "guid", "pubdate", "creator", "description"].map PyStr.of

/-- `_local`: what follows the last brace, in lower case. -/
def localName (tag : PyStr) : PyStr := rt.lowerAll (tag.rtakeWhile (· ≠ .scalar '}'))

abbrev Fields := List (PyStr × PyStr)

def textOf (child : Element) : PyStr := stripStr rt.toRuntime (child.text.getD [])

/-- One turn of the loop over the children. -/
def takeChild (fields : Fields) (child : Element) : Fields :=
  let name := localName rt child.tag
  if name ∈ wanted ∧ fields.lookup name = none then fields ++ [(name, textOf rt child)]
  else fields

/-- One turn of the loop over the elements. -/
def takeElement (items : List Fields) (element : Element) : List Fields :=
  if localName rt element.tag ≠ PyStr.of "item" then items
  else items ++ [element.children.foldl (takeChild rt) []]

/-- The content type, in lower case, names `xml` or `rss`. -/
def Typed (contentType : PyStr) : Prop :=
  PyStr.of "xml" <:+: contentType ∨ PyStr.of "rss" <:+: contentType

instance : DecidablePred Typed := fun _ => inferInstanceAs (Decidable (_ ∨ _))

def blocked (contentType : PyStr) (size : ℕ) : PyStr :=
  PyStr.of "expected an XML/RSS body, got content-type " ++ rt.reprStr contentType ++
    PyStr.of " (" ++ PyStr.of (toString size) ++
    PyStr.of " bytes) — likely a WAF block; check the User-Agent"

def rssItems (response : Response) : Except (RssError ε) (List Fields) := do
  let contentType := rt.lowerAll (response.contentType.getD [])
  if Typed contentType then
    let root ← (rt.fromstring response.text).mapError .parsing
    return root.iter.foldl (takeElement rt) []
  else throw (.valueError (blocked rt contentType response.size))

end Code

section Spec

variable {ε : Type} (rt : XmlRuntime ε)

/-- The fields a release is made from, by their names in no namespace. -/
inductive CoreField
  | title
  | link
  | guid
  | pubDate
  | description

namespace CoreField

def base : CoreField → String
  | title => "title"
  | link => "link"
  | guid => "guid"
  | pubDate => "pubDate"
  | description => "description"

/-- Where the dictionary of an item has the field. -/
def key : CoreField → String
  | pubDate => "pubdate"
  | field => field.base

variable (field : CoreField)

theorem unbraced : CodePoint.scalar '}' ∉ PyStr.of field.base := by
  cases field <;> decide

def name : QName := .plain field.base field.unbraced

theorem key_wanted : PyStr.of field.key ∈ wanted := by
  cases field <;> decide

end CoreField

def isCore (field : CoreField) (child : Element) : Bool := child.name = field.name

def flattens (name : PyStr) (child : Element) : Bool := localName rt child.tag = name

/-- The children before the first of that name in no namespace. -/
def before (field : CoreField) (children : List Element) : List Element :=
  children.takeWhile fun child => !isCore field child

/-- A sibling of another name or namespace that flattens to the name comes first, with
another text. -/
def Shadowed (field : CoreField) (children : List Element) : Prop :=
  ∃ child ∈ children.find? (isCore field),
    ∃ sibling ∈ (before field children).find? (flattens rt (PyStr.of field.key)),
      textOf rt sibling ≠ textOf rt child

def isItem (element : Element) : Bool := localName rt element.tag = PyStr.of "item"

/-- The dictionary of an item. -/
def fieldsOf (item : Element) : Fields := item.children.foldl (takeChild rt) []

variable {rt}

theorem rtakeWhile_after {α : Type} [DecidableEq α] {mark : α} {after : List α}
    (absent : mark ∉ after) (front : List α) :
    (front ++ mark :: after).rtakeWhile (· ≠ mark) = after := by
  have unmarked : ∀ x ∈ after.reverse, decide (x ≠ mark) = true := by
    intro x member
    have other : x ≠ mark := fun same => absent (same ▸ List.mem_reverse.mp member)
    exact decide_eq_true other
  rw [List.rtakeWhile, List.reverse_append, List.reverse_cons, List.append_assoc,
    List.takeWhile_append_of_pos unmarked]
  simp

/-- The namespace is stripped, whatever it is. -/
theorem localName_tag (name : QName) : localName rt name.tag = rt.lowerAll name.base := by
  obtain ⟨space, base, unbraced⟩ := name
  unfold localName QName.tag
  cases space with
  | none =>
    have whole : base.rtakeWhile (· ≠ .scalar '}') = base := by
      apply List.rtakeWhile_eq_self_iff.mpr
      intro c member
      exact decide_eq_true fun same => unbraced (same ▸ member)
    exact congrArg rt.lowerAll whole
  | some space =>
    have brace : PyStr.of "\x7d" = [.scalar '}'] := rfl
    dsimp only [Option.elim]
    rw [brace, List.append_assoc, List.singleton_append, rtakeWhile_after unbraced]

theorem flattens_of_isCore {field : CoreField} {child : Element}
    (core : isCore field child = true) :
    flattens rt (PyStr.of field.key) child = true := by
  have lowered : rt.lowerAll (PyStr.of field.base) = PyStr.of field.key := by
    have ascii : field.base.toList.all fun c => c.toNat < 128 := by
      cases field <;> rfl
    rw [PyStr.of, rt.lower_ascii _ fun c member =>
      of_decide_eq_true (List.all_eq_true.mp ascii c member)]
    cases field <;> rfl
  have name : child.name = field.name := of_decide_eq_true core
  apply decide_eq_true
  rw [Element.tag, localName_tag, name]
  exact lowered

/-- What an item offers to its dictionary, in the order of its children. -/
def offers (rt : XmlRuntime ε) (children : List Element) : Fields :=
  (children.filter fun child => localName rt child.tag ∈ wanted).map fun child =>
    (localName rt child.tag, textOf rt child)

theorem foldl_takeChild (children : List Element) (fields : Fields) :
    children.foldl (takeChild rt) fields = (offers rt children).foldl keep fields := by
  rw [offers, List.foldl_map, List.foldl_filter]
  congr
  funext fields child
  by_cases known : localName rt child.tag ∈ wanted
  · unfold takeChild keep
    rw [decide_eq_true known, if_pos rfl]
    exact if_congr (and_iff_right known) rfl rfl
  · rw [decide_eq_false known, if_neg Bool.false_ne_true]
    exact if_neg fun taken => known taken.1

theorem lookup_offers {name : PyStr} (known : name ∈ wanted) (children : List Element) :
    (offers rt children).lookup name = (children.find? (flattens rt name)).map (textOf rt) := by
  induction children with
  | nil => rfl
  | cons child rest ih =>
    by_cases same : localName rt child.tag = name
    · have here : flattens rt name child = true := decide_eq_true same
      rw [List.find?_cons_of_pos here]
      simp [offers, same, known]
    · have other : flattens rt name child = false := decide_eq_false same
      rw [List.find?_cons_of_neg (Bool.eq_false_iff.mp other), ← ih]
      unfold offers
      rw [List.filter_cons]
      split
      · rw [List.map_cons, lookup_entry, beq_false_of_ne (Ne.symm same)]
        rfl
      · rfl

/-- The dictionary has the first child that flattens to the key. -/
theorem lookup_fieldsOf {name : PyStr} (known : name ∈ wanted) (item : Element) :
    (fieldsOf rt item).lookup name =
      (item.children.find? (flattens rt name)).map (textOf rt) := by
  rw [fieldsOf, foldl_takeChild, lookup_foldl_keep, List.lookup_nil, Option.none_or,
    lookup_offers known]

theorem foldl_takeElement (elements : List Element) (items : List Fields) :
    elements.foldl (takeElement rt) items =
      items ++ (elements.filter (isItem rt)).map (fieldsOf rt) := by
  induction elements generalizing items with
  | nil => simp
  | cons element rest ih =>
    rw [List.foldl_cons, ih]
    by_cases item : localName rt element.tag = PyStr.of "item"
    · have kept : isItem rt element = true := decide_eq_true item
      rw [List.filter_cons_of_pos kept]
      simp [takeElement, fieldsOf, item]
    · have dropped : isItem rt element = false := decide_eq_false item
      rw [List.filter_cons_of_neg (Bool.eq_false_iff.mp dropped)]
      simp [takeElement, item]

theorem rssItems_eq {response : Response} {root : Element}
    (typed : Typed (rt.lowerAll (response.contentType.getD [])))
    (parsed : rt.fromstring response.text = .ok root) :
    rssItems rt response = .ok ((root.iter.filter (isItem rt)).map (fieldsOf rt)) := by
  unfold rssItems
  rw [if_pos typed, parsed]
  exact congrArg Except.ok (foldl_takeElement root.iter [])

theorem find?_of_first {field : CoreField} {children : List Element} {child : Element}
    (primary : children.find? (isCore field) = some child) :
    children.find? (flattens rt (PyStr.of field.key)) =
      ((before field children).find? (flattens rt (PyStr.of field.key))).or (some child) :=
  find?_of_stronger (fun _ core => flattens_of_isCore core) primary

theorem lookup_core_iff {field : CoreField} {item child : Element}
    (primary : item.children.find? (isCore field) = some child) :
    (fieldsOf rt item).lookup (PyStr.of field.key) = some (textOf rt child) ↔
      ¬ Shadowed rt field item.children := by
  rw [lookup_fieldsOf field.key_wanted, find?_of_first primary, Shadowed, primary]
  cases (before field item.children).find? (flattens rt (PyStr.of field.key)) <;> simp

/-- A document gives a dictionary for each of its items, in document order. It has the
first child of a core name in no namespace exactly if none shadows it. -/
theorem rssItems_core_iff (rt : XmlRuntime ε) {response : Response} {root : Element}
    (typed : Typed (rt.lowerAll (response.contentType.getD [])))
    (parsed : rt.fromstring response.text = .ok root) :
    ∃ items, rssItems rt response = .ok items ∧
      List.Forall₂ (fun item fields => ∀ field child,
          item.children.find? (isCore field) = some child →
            (fields.lookup (PyStr.of field.key) = some (textOf rt child) ↔
              ¬ Shadowed rt field item.children))
        (root.iter.filter (isItem rt)) items := by
  refine ⟨_, rssItems_eq typed parsed, ?_⟩
  apply List.forall₂_map_right_iff.mpr
  apply List.forall₂_same.mpr
  intro item _ field child primary
  exact lookup_core_iff primary

/-- The dictionary as the normalizers of the press feeds get it. -/
def record (fields : Fields) : PyValue :=
  .dict (fields.map fun entry => (entry.1, .str entry.2))

theorem get_record (fields : Fields) (name : String) :
    (record fields).get name = ((fields.lookup (PyStr.of name)).map .str).getD .null := by
  have mapped : (fields.map fun entry => (entry.1, PyValue.str entry.2)).lookup (PyStr.of name) =
      (fields.lookup (PyStr.of name)).map .str := by
    induction fields with
    | nil => rfl
    | cons entry rest ih =>
      rw [List.map_cons, lookup_entry, lookup_entry, ih]
      cases PyStr.of name == entry.1 <;> rfl
  exact congrArg (Option.getD · .null) mapped

theorem get_core (rt : XmlRuntime ε) (field : CoreField) (item : Element) :
    (record (fieldsOf rt item)).get field.key =
      ((item.children.find? (flattens rt (PyStr.of field.key))).map
        fun child => .str (textOf rt child)).getD .null := by
  rw [get_record, lookup_fieldsOf field.key_wanted, Option.map_map]
  rfl

/-- A release without a guid is dropped where the link is shadowed by a blank one. -/
theorem dropped_of_blank (feed : Press.GovFeed) (fresh : Fresh) {item child sibling : Element}
    (primary : item.children.find? (isCore .link) = some child)
    (earlier : (before .link item.children).find?
      (flattens rt (PyStr.of CoreField.link.key)) = some sibling)
    (blank : textOf rt sibling = [])
    (unkeyed : item.children.find? (flattens rt (PyStr.of CoreField.guid.key)) = none) :
    Press.rssToItem rt.toRuntime feed fresh (record (fieldsOf rt item)) = .ok none := by
  have link : (record (fieldsOf rt item)).get "link" = .str [] := by
    have read := get_core rt .link item
    rwa [find?_of_first primary, earlier, Option.some_or, Option.map_some, blank] at read
  have guid : (record (fieldsOf rt item)).get "guid" = .null := by
    have read := get_core rt .guid item
    rwa [unkeyed, Option.map_none] at read
  have untitled : ¬ Press.Titled rt.toRuntime (record (fieldsOf rt item)) := by
    intro titled
    apply titled.2.2
    rw [Press.reference, guid, link]
    rfl
  exact if_neg untitled

end Spec

section Releases

theorem plain_lower_ascii (text : List Char) (_ : ∀ c ∈ text, c.toNat < 128) :
    Runtime.plain.lowerAll (text.map .scalar) = text.map fun c => .scalar c.toLower :=
  List.map_map

/-- The XML library on the one document it is given here. -/
def reader (document : String) (root : Element) : XmlRuntime PyError where
  toRuntime := Runtime.plain
  fromstring text := if text = PyStr.of document then .ok root else .error .valueError
  reprStr s := PyStr.of "'" ++ s ++ PyStr.of "'"
  lower_ascii := plain_lower_ascii

def rssResponse (document : String) : Response where
  contentType := some (PyStr.of "application/rss+xml")
  size := document.utf8ByteSize
  text := PyStr.of document

theorem tag_unbraced : CodePoint.scalar '}' ∉ PyStr.of "rss" ∧
    CodePoint.scalar '}' ∉ PyStr.of "channel" ∧ CodePoint.scalar '}' ∉ PyStr.of "item" := by
  decide

/-- A release with these children. -/
def itemOf (children : List Element) : Element :=
  .mk (.plain "item" tag_unbraced.2.2) none children

def feedOf (item : Element) : Element :=
  .mk (.plain "rss" tag_unbraced.1) none [.mk (.plain "channel" tag_unbraced.2.1) none [item]]

def core (field : CoreField) (text : String) : Element :=
  .mk field.name (some (PyStr.of text)) []

/-- An empty `atom:link`. -/
def atomLink : Element :=
  .mk { CoreField.link.name with space := some (PyStr.of "http://www.w3.org/2005/Atom") } none []

def title : Element := core .title "Quake"

def link : Element := core .link "https://m.example/1"

theorem typed_rss (document : String) (root : Element) :
    Typed ((reader document root).lowerAll ((rssResponse document).contentType.getD [])) := by
  change Typed (Runtime.plain.lowerAll (PyStr.of "application/rss+xml"))
  decide

theorem reader_parses (document : String) (root : Element) :
    (reader document root).fromstring (rssResponse document).text = .ok root := if_pos rfl

def shadowedDocument : String :=
  "<rss xmlns:atom=\"http://www.w3.org/2005/Atom\"><channel><item><title>Quake</title>" ++
    "<atom:link href=\"https://m.example/feed\"/><link>https://m.example/1</link>" ++
    "</item></channel></rss>"

def shadowedItem : Element := itemOf [title, atomLink, link]

def shadowedReader : XmlRuntime PyError := reader shadowedDocument (feedOf shadowedItem)

/-- The link of a release is lost to an empty link of another namespace before it. -/
theorem atom_link_shadows : ∃ fields child,
    rssItems shadowedReader (rssResponse shadowedDocument) = .ok [fields] ∧
    shadowedItem.children.find? (isCore .link) = some child ∧
    fields.lookup (PyStr.of "link") ≠ some (textOf shadowedReader child) := by
  have read := rssItems_eq (typed_rss shadowedDocument (feedOf shadowedItem))
    (reader_parses shadowedDocument (feedOf shadowedItem))
  have items : (feedOf shadowedItem).iter.filter
      (isItem (reader shadowedDocument (feedOf shadowedItem))) = [shadowedItem] := rfl
  rw [items] at read
  refine ⟨_, link, read, rfl, ?_⟩
  decide

def document : String :=
  "<rss xmlns:atom=\"http://www.w3.org/2005/Atom\"><channel><item><title>Quake</title>" ++
    "<link>https://m.example/1</link><atom:link href=\"https://m.example/feed\"/>" ++
    "</item></channel></rss>"

def item : Element := itemOf [title, link, atomLink]

theorem primary_link_read : ∃ fields,
    rssItems (reader document (feedOf item)) (rssResponse document) = .ok [fields] ∧
    fields.lookup (PyStr.of "link") = some (PyStr.of "https://m.example/1") := by
  obtain ⟨items, read, reads⟩ := rssItems_core_iff (reader document (feedOf item))
    (typed_rss document (feedOf item)) (reader_parses document (feedOf item))
  have only : (feedOf item).iter.filter (isItem (reader document (feedOf item))) = [item] := rfl
  rw [only] at reads
  have unshadowed : ¬ Shadowed (reader document (feedOf item)) .link item.children := by
    intro shadowed
    obtain ⟨child, _, sibling, earlier, _⟩ := shadowed
    have alone : (before .link item.children).find?
        (flattens (reader document (feedOf item)) (PyStr.of CoreField.link.key)) = none := rfl
    rw [alone] at earlier
    cases earlier
  cases reads with
  | cons core rest =>
    cases rest
    exact ⟨_, read, (core .link link rfl).mpr unshadowed⟩

end Releases

end Rss

end NewsAggregator.Ingest
