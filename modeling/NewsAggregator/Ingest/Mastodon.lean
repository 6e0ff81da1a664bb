import NewsAggregator.Ingest.Emission

/-! The public timelines of a set of Mastodon instances. -/

namespace NewsAggregator.Ingest.Mastodon

open Foundation

def source : PyStr := PyStr.of "mastodon"

/-- `sub`, left to right, of a pattern that matches no empty string: `matchLen` is the
length of the match that starts a string, `0` where there is none. -/
def subFrom (matchLen : PyStr → ℕ) (new : PyStr) : ℕ → PyStr → PyStr
  | _, [] => []
  | skip + 1, _ :: rest => subFrom matchLen new skip rest
  | 0, c :: rest =>
    match matchLen (c :: rest) with
    | 0 => c :: subFrom matchLen new 0 rest
    | length + 1 => new ++ subFrom matchLen new length rest

section Code

variable (rt : Runtime)

/-- `<(?:br\s*/?|/p)>`, ignoring case. -/
def breakLen (s : PyStr) : ℕ :=
  match s with
  | .scalar '<' :: .scalar '/' :: .scalar p :: .scalar '>' :: _ => if p.toLower = 'p' then 4 else 0
  | .scalar '<' :: .scalar b :: .scalar r :: rest =>
    if b.toLower = 'b' ∧ r.toLower = 'r' then
      let spaces := (rest.takeWhile (CodePoint.isSpace rt)).length
      match rest.drop spaces with
      | .scalar '>' :: _ => spaces + 4
      | .scalar '/' :: .scalar '>' :: _ => spaces + 5
      | _ => 0
    else 0
  | _ => 0

/-- `<[^>]+>` -/
def tagLen (s : PyStr) : ℕ :=
  match s with
  | .scalar '<' :: rest =>
    let body := (rest.takeWhile (· ≠ .scalar '>')).length
    if 0 < body ∧ body < rest.length then body + 2 else 0
  | _ => 0

/-- The content without its tags, the breaks as line ends. -/
def untagged (content : PyStr) : PyStr :=
  subFrom tagLen [] 0 (subFrom (breakLen rt) (PyStr.of "\n") 0 content)

def stripHtml (content : PyStr) : Except PyError PyStr :=
  (rt.unescape (untagged rt content)).elim (.error .valueError) fun text => .ok (stripStr rt text)

/-- `skip_bots and (status.get("account") or {}).get("bot")` -/
def skipsBot (skipBots : Bool) (status : PyValue) : Except PyError Bool :=
  if skipBots then do
    let account ← orDict (status.get "account")
    return (account.get "bot").truthy
  else return false

/-- A public post of its own in a listed language. -/
def Original (langs : List PyStr) (status : PyValue) : Prop :=
  status.isDict ∧ (status.get "reblog").isNone ∧ (status.get "visibility").IsText "public" ∧
    (status.get "language").isStr ∧ primaryTag rt (status.get "language").chars ∈ langs

instance (langs : List PyStr) : DecidablePred (Original rt langs) := fun _ =>
  inferInstanceAs (Decidable (_ ∧ _))

def shouldKeep (langs : List PyStr) (skipBots : Bool) (status : PyValue) : Except PyError Bool :=
  if Original rt langs status then do
    let skipped ← skipsBot skipBots status
    if skipped = false ∧ (status.get "content").isStr = true then
      let text ← stripHtml rt (status.get "content").chars
      return decide (text ≠ [])
    else return false
  else return false

def parseDt (value : PyValue) : Option DateTime :=
  (parseIso rt value PyStr.zulu).bind ParsedTime.kept

def langOf (status : PyValue) : PyStr :=
  let lang := (status.get "language").chars
  if lang = [] then PyStr.of "und" else (rt.lowerAll lang).take 8

def itemArgs (status : PyValue) (text authorRef hash : PyStr) : ItemArgs :=
  let url := (status.get "url").chars
  { source := source
    sourceClass := .social
    tsEvent := parseDt rt (status.get "created_at")
    lang := langOf rt status
    text := text.take maxTextLen
    urls := linkIf (url.startsWith "http") url
    authorRef := authorRef
    contentHash := PyStr.of "masto:" ++ hash
    rawRef := (toStr rt (status.getOr "id" (.str []))).take 256 }

/-- There are an address and a content. -/
def Addressed (status : PyValue) : Prop :=
  (status.get "uri").chars ≠ [] ∧ (status.get "content").isStr

instance : DecidablePred Addressed := fun _ => inferInstanceAs (Decidable (_ ∧ _))

def normalize (instanceName : String) (fresh : Fresh) (status : PyValue) :
    Except PyError (Option Emitted) := do
  let status ← asDict status
  if Addressed status then
    let text ← stripHtml rt (status.get "content").chars
    if text ≠ [] then
      let account ← orDict (status.get "account")
      let authorRef ← hashRef rt (PyStr.of instanceName) (account.get "id")
      let hash ← digest rt (status.get "uri").chars 40
      let item ← (itemArgs rt status text authorRef hash).validate fresh
      return some item
    else return none
  else return none

end Code

section Spec

variable (rt : Runtime) (status : PyValue)

/-- The text of a content, empty where it cannot be read. -/
def plainText (content : PyStr) : PyStr :=
  (rt.unescape (untagged rt content)).elim [] (stripStr rt)

theorem ends_stripHtml {content : PyStr} {property : PyStr → Prop} :
    Ends (stripHtml rt content) property ↔
      (rt.unescape (untagged rt content)).isSome ∧ property (plainText rt content) := by
  rw [stripHtml, plainText]
  cases rt.unescape (untagged rt content) <;> simp

def FromBot (skipBots : Bool) : Prop :=
  skipBots ∧ ((status.get "account").get "bot").truthy

/-- What decides on an original post can be read. -/
def Decides (langs : List PyStr) (skipBots : Bool) : Prop :=
  Original rt langs status →
    (skipBots → (status.get "account").OrDict) ∧
      (¬ FromBot status skipBots → (status.get "content").isStr →
        (rt.unescape (untagged rt (status.get "content").chars)).isSome)

instance (skipBots : Bool) : Decidable (FromBot status skipBots) :=
  inferInstanceAs (Decidable (_ ∧ _))

/-- The status is kept. -/
def Kept (langs : List PyStr) (skipBots : Bool) : Prop :=
  Original rt langs status ∧ ¬ FromBot status skipBots ∧ (status.get "content").isStr ∧
    plainText rt (status.get "content").chars ≠ []

instance (langs : List PyStr) (skipBots : Bool) : Decidable (Kept rt status langs skipBots) :=
  inferInstanceAs (Decidable (_ ∧ _))

theorem ends_skipsBot {skipBots : Bool} {property : Bool → Prop} :
    Ends (skipsBot skipBots status) property ↔
      (skipBots → (status.get "account").OrDict) ∧
        property (decide (FromBot status skipBots)) := by
  unfold skipsBot FromBot
  split <;> simp [*]

theorem ends_shouldKeep {langs : List PyStr} {skipBots : Bool} {property : Bool → Prop} :
    Ends (shouldKeep rt langs skipBots status) property ↔
      Decides rt status langs skipBots ∧ property (decide (Kept rt status langs skipBots)) := by
  by_cases original : Original rt langs status
  · by_cases candidate : ¬ FromBot status skipBots ∧ (status.get "content").isStr
    · simp [shouldKeep, Decides, Kept, original, candidate, ends_ite, ends_skipsBot,
        ends_stripHtml, and_assoc]
    · have dropped : ¬ Kept rt status langs skipBots := fun kept =>
        candidate ⟨kept.2.1, kept.2.2.1⟩
      rw [decide_eq_false dropped]
      simp only [shouldKeep, Decides, original, ends_skipsBot, ends_ite, ends_bind, if_true,
        decide_eq_false_iff_not, candidate, if_false, ends_pure, true_imp_iff]
      constructor
      · intro holds
        refine ⟨⟨holds.1, fun human string => ?_⟩, holds.2⟩
        exact absurd ⟨human, string⟩ candidate
      · intro holds
        exact ⟨holds.1.1, holds.2⟩
  · simp [shouldKeep, Decides, Kept, original]

/-- The strings of a status encode. -/
def Clean : Prop :=
  (((status.get "account").get "id").truthy →
    (toStr rt ((status.get "account").get "id")).Encodes) ∧
  (status.get "uri").chars.Encodes ∧
  (langOf rt status).Encodes ∧
  PyStr.Encodes ((plainText rt (status.get "content").chars).take maxTextLen) ∧
  PyStr.Encodes ((toStr rt (status.getOr "id" (.str []))).take 256)

abbrev args (instanceName : String) : ItemArgs :=
  itemArgs rt status (plainText rt (status.get "content").chars)
    (hashRefOf rt (PyStr.of instanceName) ((status.get "account").get "id"))
    (digestOf rt (status.get "uri").chars 40)

theorem length_langOf_le : (langOf rt status).length ≤ 8 := by
  unfold langOf
  dsimp only
  split
  · simp
  · exact List.length_take_le 8 _

theorem length_hash_le (instanceName : String) :
    (args rt status instanceName).contentHash.length ≤ 46 := by
  have head : "masto:".length = 6 := by decide
  have digits := length_digestOf_le rt (status.get "uri").chars 40
  simp only [itemArgs, List.length_append, PyStr.length_of, head]
  omega

theorem sized_args (instanceName : String) : (args rt status instanceName).Sized := by
  have named : "mastodon".length ≤ 64 := by decide
  refine ⟨?_, length_langOf_le .., List.length_take_le _ _, Nat.zero_le _, length_linkIf_le,
    (hashRefOf_capped ..).2.trans (by decide), by simp [itemArgs],
    (length_hash_le ..).trans (by decide), List.length_take_le _ _⟩
  simpa [itemArgs, source] using named

theorem ends_normalize {instanceName : String} {fresh : Fresh}
    {property : Option Emitted → Prop} :
    Ends (normalize rt instanceName fresh status) property ↔ status.isDict ∧
      if Addressed status then
        (rt.unescape (untagged rt (status.get "content").chars)).isSome ∧
          if plainText rt (status.get "content").chars ≠ [] then
            (status.get "account").OrDict ∧ Clean rt status ∧
              property (some ((sized_args rt status instanceName).emitted fresh))
          else property none
      else property none := by
  have encoded : (args rt status instanceName).Encoded ↔ (langOf rt status).Encodes ∧
      PyStr.Encodes ((plainText rt (status.get "content").chars).take maxTextLen) ∧
      PyStr.Encodes ((toStr rt (status.getOr "id" (.str []))).take 256) := by
    simp [ItemArgs.Encoded, itemArgs, source, hashRefOf_capped]
  simp only [normalize, ends_bind, ends_asDict, ends_orDict, ends_ite, ends_pure, ends_stripHtml,
    ends_hashRef, PyStr.encodes_of, true_and, ends_digest,
    ItemArgs.ends_validate_of_sized (sized_args rt status instanceName), encoded, Clean, and_assoc]

/-- The statuses both functions return on. -/
def Tame (langs : List PyStr) (skipBots : Bool) : Prop :=
  Decides rt status langs skipBots ∧ (Kept rt status langs skipBots →
    (status.get "uri").chars ≠ [] → (status.get "account").OrDict ∧ Clean rt status)

theorem returns_iff {langs : List PyStr} {skipBots : Bool} {instanceName : String}
    {fresh : Fresh} :
    (Ends (shouldKeep rt langs skipBots status) fun kept =>
      kept → Returns (normalize rt instanceName fresh status)) ↔ Tame rt status langs skipBots := by
  rw [ends_shouldKeep, Tame, Returns, ends_normalize]
  simp only [and_true, if_true_right, decide_eq_true_eq]
  refine and_congr_right fun decides => forall_congr' fun kept => ?_
  have readable := (decides kept.1).2 kept.2.1 kept.2.2.1
  exact ⟨fun returns uri => (returns.2 ⟨uri, kept.2.2.1⟩).2 kept.2.2.2,
    fun tame => ⟨kept.1.1, fun addressed => ⟨readable, fun _ => tame addressed.1⟩⟩⟩

theorem gives_args {instanceName : String} {fresh : Fresh} {emitted : Emitted}
    (normalized : normalize rt instanceName fresh status = .ok (some emitted)) :
    (args rt status instanceName).Gives fresh emitted := by
  have ends := ends_eq_iff.mpr normalized
  rw [ends_normalize] at ends
  grind [ItemArgs.Sized.gives]

end Spec

end NewsAggregator.Ingest.Mastodon
