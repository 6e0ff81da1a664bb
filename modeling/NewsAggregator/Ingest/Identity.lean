import NewsAggregator.Ingest.Total

/-! What the items of the social ingesters say about an account beside its hashed
references: two runs on inputs that differ only in what identifies it. -/

namespace NewsAggregator.Ingest

open Foundation

/-- Two dictionaries agree on every other name. -/
def AgreeOutside (names : List String) (first second : PyValue) : Prop :=
  ∀ name, name ∉ names → ∀ fallback, first.getOr name fallback = second.getOr name fallback

/-- Only the `did` and the `rkey` of the events may differ. -/
structure Bluesky.Twins (evt other : PyValue) : Prop where
  event : AgreeOutside ["did", "commit"] evt other
  commit : AgreeOutside ["rkey"] (evt.get "commit") (other.get "commit")

/-- Only the account and the addresses of the statuses may differ. -/
def Mastodon.Twins (status other : PyValue) : Prop :=
  AgreeOutside ["account", "uri", "url"] status other

/-- The items are equal but for the hashed references, the ids and the times they were
observed at. -/
structure SameButRefs (first second : Emitted) : Prop where
  item : { first.item with
    id := second.item.id
    tsObserved := second.item.tsObserved
    authorRef := second.item.authorRef
    contentHash := second.item.contentHash } = second.item
  links : first.links = second.links

/-- Two addresses make the same link, or none: they agree as far as they are kept. -/
def SameLink (first second : PyStr) : Prop :=
  (first.startsWith "http" ∨ second.startsWith "http") → first.take 2048 = second.take 2048

variable {rt : Runtime}

theorem startsWith_take {link : PyStr} {head : String} {n : ℕ} (fits : head.length ≤ n) :
    PyStr.startsWith (link.take n) head ↔ link.startsWith head := by
  unfold PyStr.startsWith
  constructor
  · exact fun starts => starts.trans (List.take_prefix n link)
  · intro starts
    apply List.prefix_take_iff.mpr
    refine ⟨starts, ?_⟩
    rwa [PyStr.length_of]

theorem linkIf_eq_iff {first second : PyStr} :
    linkIf (first.startsWith "http") first = linkIf (second.startsWith "http") second ↔
      SameLink first second := by
  have cut (link : PyStr) : PyStr.startsWith (link.take 2048) "http" ↔ link.startsWith "http" :=
    startsWith_take (by decide)
  unfold linkIf SameLink
  by_cases left : first.startsWith "http" <;> by_cases right : second.startsWith "http"
  · simp [left, right]
  · have apart : first.take 2048 ≠ second.take 2048 := by
      intro same
      exact right ((cut second).mp (same ▸ (cut first).mpr left))
    simp [left, right, apart]
  · have apart : first.take 2048 ≠ second.take 2048 := by
      intro same
      exact left ((cut first).mp (same ▸ (cut second).mpr right))
    simp [left, right, apart]
  · simp [left, right]

/-- The arguments agree but for the references and the links. -/
def ItemArgs.Alike (first second : ItemArgs) : Prop :=
  { first with
    urls := second.urls
    authorRef := second.authorRef
    contentHash := second.contentHash } = second

theorem ItemArgs.Alike.sameButRefs_iff {first second : ItemArgs} (alike : first.Alike second)
    {fresh later : Fresh} {emitted other : Emitted} (gives : first.Gives fresh emitted)
    (others : second.Gives later other) :
    SameButRefs emitted other ↔ first.urls = second.urls := by
  obtain ⟨item, links⟩ := gives
  obtain ⟨otherItem, otherLinks⟩ := others
  constructor
  · intro same
    rw [← links, ← otherLinks, same.links]
  · intro urls
    refine ⟨?_, by rw [links, otherLinks, urls]⟩
    rw [item, otherItem, ← alike]
    simp [ItemArgs.item, urls]

theorem AgreeOutside.get_eq {names : List String} {first second : PyValue}
    (agree : AgreeOutside names first second) {name : String} (other : name ∉ names) :
    first.get name = second.get name := agree name other .null

theorem Bluesky.Twins.alike {evt other : PyValue} (twins : Bluesky.Twins evt other) :
    (Bluesky.args rt evt).Alike (Bluesky.args rt other) ∧
      (Bluesky.args rt evt).urls = (Bluesky.args rt other).urls := by
  have record : Bluesky.recordOf evt = Bluesky.recordOf other :=
    twins.commit.get_eq (by decide)
  have parent : Bluesky.parentOf evt = Bluesky.parentOf other :=
    congrArg (fun record => (record.get "reply").get "parent") record
  have cid := twins.commit "cid" (by decide) (.str [])
  simp only [ItemArgs.Alike, Bluesky.itemArgs, record, parent, cid, and_self]

theorem Mastodon.Twins.alike {status other : PyValue} (twins : Mastodon.Twins status other)
    (instanceName otherName : String) :
    (Mastodon.args rt status instanceName).Alike (Mastodon.args rt other otherName) := by
  have content : status.get "content" = other.get "content" :=
    AgreeOutside.get_eq twins (by decide)
  have language : status.get "language" = other.get "language" :=
    AgreeOutside.get_eq twins (by decide)
  have created : status.get "created_at" = other.get "created_at" :=
    AgreeOutside.get_eq twins (by decide)
  have id := twins "id" (by decide) (.str [])
  simp only [ItemArgs.Alike, Mastodon.itemArgs, Mastodon.langOf, content, language, created, id]

/-- Bluesky items of events of different authors tell them apart by the hashed
references only. Mastodon items do so exactly if the addresses make the same link. -/
theorem identity_hidden_iff (rt : Runtime) :
    (∀ evt other fresh later emitted second, Bluesky.Twins evt other →
      Bluesky.normalize rt fresh evt = .ok (some emitted) →
      Bluesky.normalize rt later other = .ok (some second) → SameButRefs emitted second) ∧
    ∀ status other instanceName otherName fresh later emitted second,
      Mastodon.Twins status other →
      Mastodon.normalize rt instanceName fresh status = .ok (some emitted) →
      Mastodon.normalize rt otherName later other = .ok (some second) →
        (SameButRefs emitted second ↔
          SameLink (status.get "url").chars (other.get "url").chars) := by
  constructor
  · intro evt other fresh later emitted second twins normalized again
    obtain ⟨alike, urls⟩ := @Bluesky.Twins.alike rt evt other twins
    exact (alike.sameButRefs_iff (Bluesky.gives_args rt evt normalized)
      (Bluesky.gives_args rt other again)).mpr urls
  · intro status other instanceName otherName fresh later emitted second twins normalized again
    rw [(Mastodon.Twins.alike twins instanceName otherName).sameButRefs_iff
      (Mastodon.gives_args rt status normalized) (Mastodon.gives_args rt other again)]
    exact linkIf_eq_iff

/-- The same post, by the account with this id and at this address. -/
def statusBy (account url : String) : PyValue :=
  .dict [(PyStr.of "uri", .str (PyStr.of ("https://m.example/ap/" ++ account))),
    (PyStr.of "url", .str (PyStr.of url)),
    (PyStr.of "content", .str (PyStr.of "<p>Quake felt</p>")),
    (PyStr.of "language", .str (PyStr.of "en")),
    (PyStr.of "account", .dict [(PyStr.of "id", .str (PyStr.of account))])]

theorem lookup_of_ne {name key : String} {value : PyValue} {rest : List (PyStr × PyValue)}
    (different : name ≠ key) :
    ((PyStr.of key, value) :: rest).lookup (PyStr.of name) = rest.lookup (PyStr.of name) := by
  have apart : PyStr.of name ≠ PyStr.of key := by
    intro same
    have chars := List.map_injective_iff.mpr (fun _ _ => CodePoint.scalar.inj) same
    exact different (String.toList_inj.mp chars)
  rw [List.lookup_cons, beq_false_of_ne apart]

theorem statusBy_twins (account url second other : String) :
    Mastodon.Twins (statusBy account url) (statusBy second other) := by
  intro name outside fallback
  simp only [List.mem_cons, List.not_mem_nil, or_false, not_or] at outside
  obtain ⟨noAccount, noUri, noUrl⟩ := outside
  simp only [statusBy, PyValue.getOr, lookup_of_ne noUri, lookup_of_ne noUrl]
  by_cases content : name = "content"
  · subst content
    simp
  · by_cases language : name = "language"
    · subst language
      rw [lookup_of_ne content]
      simp [lookup_of_ne content]
    · simp [lookup_of_ne content, lookup_of_ne language, lookup_of_ne noAccount]

theorem statusBy_url (account url : String) :
    ((statusBy account url).get "url").chars = PyStr.of url := rfl

theorem statusBy_normalizes (account url : String) : ∃ emitted,
    Mastodon.normalize .plain "m.example" epoch (statusBy account url) = .ok (some emitted) := by
  have uri : ((statusBy account url).get "uri").chars =
      PyStr.of ("https://m.example/ap/" ++ account) := rfl
  have addressed : Mastodon.Addressed (statusBy account url) := by
    refine ⟨?_, rfl⟩
    rw [uri]
    apply List.ne_nil_of_length_pos
    rw [PyStr.length_of, String.length_append]
    exact Nat.lt_add_right _ (by decide)
  have clean : Mastodon.Clean .plain (statusBy account url) :=
    ⟨fun _ => PyStr.encodes_of account, uri ▸ PyStr.encodes_of _, PyStr.encodes_of "en",
      PyStr.encodes_of "Quake felt", PyStr.encodes_nil⟩
  have text : Mastodon.plainText .plain ((statusBy account url).get "content").chars ≠ [] := by
    change Mastodon.plainText .plain (PyStr.of "<p>Quake felt</p>") ≠ []
    decide
  have ends : Ends (Mastodon.normalize .plain "m.example" epoch (statusBy account url))
      fun out => ∃ emitted, out = some emitted := by
    rw [Mastodon.ends_normalize, if_pos addressed, if_pos text]
    exact ⟨rfl, rfl, fun _ => rfl, clean, _, rfl⟩
  obtain ⟨out, normalized, emitted, made⟩ := ends
  exact ⟨emitted, made ▸ normalized⟩

/-- The address of a post names its account. -/
theorem handle_crosses : ∃ emitted second,
    Mastodon.Twins (statusBy "1" "https://m.example/@alice/7")
      (statusBy "2" "https://m.example/@bob/8") ∧
    Mastodon.normalize .plain "m.example" epoch (statusBy "1" "https://m.example/@alice/7") =
      .ok (some emitted) ∧
    Mastodon.normalize .plain "m.example" epoch (statusBy "2" "https://m.example/@bob/8") =
      .ok (some second) ∧
    ¬ SameButRefs emitted second := by
  obtain ⟨emitted, first⟩ := statusBy_normalizes "1" "https://m.example/@alice/7"
  obtain ⟨second, other⟩ := statusBy_normalizes "2" "https://m.example/@bob/8"
  refine ⟨emitted, second, statusBy_twins _ _ _ _, first, other, ?_⟩
  intro same
  have apart := (Mastodon.gives_args _ _ other).2
  rw [← same.links, (Mastodon.gives_args _ _ first).2] at apart
  exact absurd apart (by decide)

theorem moved_hidden : ∃ emitted second,
    Mastodon.normalize .plain "m.example" epoch (statusBy "1" "https://m.example/7") =
      .ok (some emitted) ∧
    Mastodon.normalize .plain "m.example" epoch (statusBy "2" "https://m.example/7") =
      .ok (some second) ∧
    SameButRefs emitted second := by
  obtain ⟨emitted, first⟩ := statusBy_normalizes "1" "https://m.example/7"
  obtain ⟨second, other⟩ := statusBy_normalizes "2" "https://m.example/7"
  have hidden := (identity_hidden_iff .plain).2 (statusBy "1" "https://m.example/7")
    (statusBy "2" "https://m.example/7") "m.example" "m.example" epoch epoch emitted second
    (statusBy_twins _ _ _ _) first other
  rw [statusBy_url, statusBy_url] at hidden
  exact ⟨emitted, second, first, other, hidden.mpr fun _ => rfl⟩

end NewsAggregator.Ingest
