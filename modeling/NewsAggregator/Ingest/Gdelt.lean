import NewsAggregator.Ingest.Emission

/-! The GDELT article list. -/

namespace NewsAggregator.Ingest.Gdelt

open Foundation

def source : PyStr := PyStr.of "gdelt"

section Code

variable (rt : Runtime)

def parseSeendate (value : PyValue) : Option DateTime :=
  if value.isStr then rt.strptime value.chars "%Y%m%dT%H%M%SZ" else none

def dedupKey (article : PyValue) : Except PyError PyStr := do
  let article ← asDict article
  return toStr rt (article.getOr "url" (.str []))

def itemArgs (article : PyValue) (hash : PyStr) : ItemArgs :=
  let language := rt.lowerAll (toStr rt (article.getOr "language" (.str [])))
  let domain := (toStr rt (article.getOr "domain" (.str []))).take 256
  { source := source
    sourceClass := .mainstream
    tsEvent := parseSeendate rt (article.get "seendate")
    lang := if language = PyStr.of "english" then PyStr.of "en" else PyStr.of "und"
    text := (toStr rt (article.get "title")).take maxTextLen
    urls := [(article.get "url").chars.take 2048]
    authorRef := domain
    contentHash := PyStr.of "gdelt:" ++ hash
    rawRef := domain }

/-- The url is a link and there is a title. -/
def Linked (article : PyValue) : Prop :=
  (article.get "url").isStr ∧ (article.get "url").chars.startsWith "http" ∧
    (article.get "title").truthy

instance : DecidablePred Linked := fun _ => inferInstanceAs (Decidable (_ ∧ _))

def normalize (fresh : Fresh) (article : PyValue) : Except PyError (Option Emitted) := do
  let article ← asDict article
  if Linked article then
    let hash ← digest rt (article.get "url").chars 40
    let item ← (itemArgs rt article hash).validate fresh
    return some item
  else return none

end Code

section Spec

variable (rt : Runtime) (article : PyValue)

/-- The strings of an article encode. -/
def Clean : Prop :=
  (article.get "url").chars.Encodes ∧
    PyStr.Encodes ((toStr rt (article.get "title")).take maxTextLen) ∧
    PyStr.Encodes ((toStr rt (article.getOr "domain" (.str []))).take 256)

abbrev args : ItemArgs := itemArgs rt article (digestOf rt (article.get "url").chars 40)

theorem length_lang_le : (args rt article).lang.length ≤ 8 := by
  have english : "en".length ≤ 8 := by decide
  simp only [itemArgs]
  split <;> simp [english]

theorem length_hash_le : (args rt article).contentHash.length ≤ 46 := by
  have head : "gdelt:".length = 6 := by decide
  have digits := length_digestOf_le rt (article.get "url").chars 40
  simp only [itemArgs, List.length_append, PyStr.length_of, head]
  omega

theorem sized_args : (args rt article).Sized := by
  have named : "gdelt".length ≤ 64 := by decide
  refine ⟨?_, length_lang_le .., List.length_take_le _ _, Nat.zero_le _, ?_,
    List.length_take_le _ _, by simp [itemArgs], (length_hash_le ..).trans (by decide),
    List.length_take_le _ _⟩
  · simpa [itemArgs, source] using named
  · simp [itemArgs, maxUrls]

theorem encoded_args : (args rt article).Encoded ↔
    PyStr.Encodes ((toStr rt (article.get "title")).take maxTextLen) ∧
      PyStr.Encodes ((toStr rt (article.getOr "domain" (.str []))).take 256) := by
  have lang : (args rt article).lang.Encodes := by
    simp only [itemArgs]
    split <;> simp
  have fixed : (args rt article).source.Encodes ∧ (args rt article).contentHash.Encodes := by
    simp [itemArgs, source]
  simp only [ItemArgs.Encoded, lang, fixed, true_and]
  simp [itemArgs]

theorem returns_dedupKey : Returns (dedupKey rt article) ↔ article.isDict := by
  simp [Returns, dedupKey]

theorem ends_normalize {fresh : Fresh} {property : Option Emitted → Prop} :
    Ends (normalize rt fresh article) property ↔ article.isDict ∧
      if Linked article then
        Clean rt article ∧ property (some ((sized_args rt article).emitted fresh))
      else property none := by
  simp only [normalize, ends_bind, ends_asDict, ends_ite, ends_pure, ends_digest,
    ItemArgs.ends_validate_of_sized (sized_args rt article), encoded_args, Clean, and_assoc]

/-- The articles both functions return on. -/
def Tame : Prop := article.isDict ∧ (Linked article → Clean rt article)

theorem returns_iff {fresh : Fresh} :
    (Returns (dedupKey rt article) ∧ Returns (normalize rt fresh article)) ↔ Tame rt article := by
  rw [returns_dedupKey, Returns, ends_normalize, Tame]
  simp only [and_true, if_true_right]
  exact ⟨And.right, fun tame => ⟨tame.1, tame⟩⟩

theorem gives_args {fresh : Fresh} {emitted : Emitted}
    (normalized : normalize rt fresh article = .ok (some emitted)) :
    (args rt article).Gives fresh emitted := by
  have ends := ends_eq_iff.mpr normalized
  rw [ends_normalize] at ends
  grind [ItemArgs.Sized.gives]

end Spec

end NewsAggregator.Ingest.Gdelt
