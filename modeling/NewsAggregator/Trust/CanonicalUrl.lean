import NewsAggregator.Trust.Edges
import NewsAggregator.Urllib

/-! Which URLs `canonical_url` takes for one: those of one host, path and query, up to the
noise it drops. -/

namespace NewsAggregator

/-- The calls of `canonical_url` do as the standard library specifies. -/
structure Python.ParsesUrls (py : Python) : Prop where
  splits : ∃ accepts, py.urlsplit = Urllib.urlsplit accepts
  encodes : py.urlencode = Urllib.urlencode
  strips : ∀ text, py.strip text =
    String.ofList ((text.toList.dropWhile py.isSpace).rdropWhile py.isSpace)
  graphic : ∀ c, 32 < c.toNat → c.toNat < 127 → py.isSpace c = false
  foldsNothing : py.casefold "" = ""
  /-- Case folding brings in no delimiter of a URL. -/
  folds : ∀ text, ∀ c ∈ (py.casefold text).toList, Urllib.isDelimiter c = true → c ∈ text.toList

end NewsAggregator

namespace NewsAggregator.Trust

open Foundation Urllib

variable {py : Python}

/-- What `canonical_url` takes for the host. -/
def hostOf (py : Python) (parts : SplitResult) : String :=
  removePrefix "www." (py.casefold parts.netloc)

/-- The decoded query without the tracking parameters. -/
def keptQuery (py : Python) (parts : SplitResult) : List (String × String) :=
  (py.parseQsl parts.query).filter fun pair =>
    !startsWithAny trackingPrefixes (py.casefold pair.1)

/-- Host, path up to trailing slashes, and kept query agree. -/
structure SameResource (py : Python) (first second : SplitResult) : Prop where
  host : hostOf py first = hostOf py second
  path : rstripChar '/' first.path = rstripChar '/' second.path
  query : keptQuery py first = keptQuery py second

/-- `canonical_url` identifies the URLs of one resource, and only those. -/
structure Identifies (py : Python) : Prop where
  resource : ∀ u v first second, py.urlsplit (py.strip u) = some first →
    py.urlsplit (py.strip v) = some second → hostOf py first ≠ "" ∨ hostOf py second ≠ "" →
    (canonicalUrl py u = canonicalUrl py v ↔ SameResource py first second)
  nameless : ∀ url parts, py.urlsplit (py.strip url) = some parts → hostOf py parts = "" →
    canonicalUrl py url = ""
  blanks : ∀ before url after, (∀ c ∈ before.toList, py.isSpace c = true) →
    (∀ c ∈ after.toList, py.isSpace c = true) →
    canonicalUrl py (before ++ url ++ after) = canonicalUrl py url
  scheme : ∀ scheme other rest, isScheme scheme.toList = true → isScheme other.toList = true →
    canonicalUrl py (scheme ++ ":" ++ rest) = canonicalUrl py (other ++ ":" ++ rest)
  schemeless : ∀ scheme rest, isScheme scheme.toList = true →
    canonicalUrl py (scheme ++ "://" ++ rest) = canonicalUrl py ("//" ++ rest)
  fragment : ∀ url first second,
    canonicalUrl py (url ++ "#" ++ first) = canonicalUrl py (url ++ "#" ++ second)
  fragmentless : ∀ url fragment, (∀ c ∈ url.toList.getLast?, py.isSpace c = false) →
    canonicalUrl py (url ++ "#" ++ fragment) = canonicalUrl py url

section Stripping

theorem strip_blanks (urls : py.ParsesUrls) {before after : String}
    (front : ∀ c ∈ before.toList, py.isSpace c = true)
    (back : ∀ c ∈ after.toList, py.isSpace c = true) (url : String) :
    py.strip (before ++ url ++ after) = py.strip url := by
  rw [urls.strips, urls.strips]
  simp only [String.toList_append, List.append_assoc]
  rw [List.dropWhile_append_of_pos front, List.dropWhile_append]
  split
  · rename_i blank
    rw [List.isEmpty_iff.mp blank, List.dropWhile_eq_nil_iff.mpr back]
  · rw [List.rdropWhile, List.reverse_append,
      List.dropWhile_append_of_pos fun c member => back c (List.mem_reverse.mp member)]
    rfl

/-- Up to a character that is not white space, only the front is stripped. -/
theorem strip_stop (urls : py.ParsesUrls) {mark : Char} (solid : py.isSpace mark = false)
    (before after : List Char) :
    (py.strip (String.ofList (before ++ mark :: after))).toList =
      before.dropWhile py.isSpace ++ mark :: after.rdropWhile py.isSpace := by
  rw [urls.strips, String.toList_ofList, String.toList_ofList, dropWhile_stop solid]
  have grouped : (before.dropWhile py.isSpace ++ mark :: after).reverse =
      after.reverse ++ mark :: (before.dropWhile py.isSpace).reverse := by simp
  rw [List.rdropWhile, grouped, dropWhile_stop solid, List.reverse_append, List.rdropWhile]
  simp

/-- A text that does not end in white space keeps its end. -/
theorem strip_of_solid (urls : py.ParsesUrls) {url : String}
    (solid : ∀ c ∈ url.toList.getLast?, py.isSpace c = false) :
    (py.strip url).toList = url.toList.dropWhile py.isSpace := by
  rw [urls.strips, String.toList_ofList]
  refine List.rdropWhile_eq_self_iff.mpr fun some white => ?_
  obtain ⟨front, whole⟩ := List.dropWhile_suffix py.isSpace (l := url.toList)
  have last : url.toList.getLast? = (url.toList.dropWhile py.isSpace).getLast? :=
    (congrArg List.getLast? whole.symm).trans (List.getLast?_append_of_ne_nil _ some)
  rw [solid _ (last.trans (List.getLast?_eq_some_getLast some))] at white
  cases white

end Stripping

section Invariance

/-- URLs with one split have one canonical form. -/
theorem canonicalUrl_congr {u v : String}
    (same : py.urlsplit (py.strip u) = py.urlsplit (py.strip v)) :
    canonicalUrl py u = canonicalUrl py v := by
  rw [canonicalUrl, canonicalUrl, same]

theorem solid_of_scheme (urls : py.ParsesUrls) {scheme : List Char}
    (valid : isScheme scheme = true) (rest : List Char) :
    (scheme ++ rest).dropWhile py.isSpace = scheme ++ rest := by
  obtain ⟨first, more, rfl, _⟩ := isScheme_head valid
  have graphic := isScheme_graphic valid first List.mem_cons_self
  rw [List.cons_append, List.dropWhile_cons_of_neg]
  simp [urls.graphic first graphic.1 graphic.2.1]

/-- The split of a URL with a scheme is that of what follows it. -/
theorem urlsplit_strip_scheme (urls : py.ParsesUrls) :
    ∃ accepts, py.urlsplit = urlsplit accepts ∧ ∀ scheme rest, isScheme scheme = true →
      py.urlsplit (py.strip (String.ofList (scheme ++ ':' :: rest))) =
        splitParts accepts ((rest.rdropWhile py.isSpace).filter fun c => !isRemoved c) := by
  obtain ⟨accepts, splits⟩ := urls.splits
  refine ⟨accepts, splits, fun scheme rest valid => ?_⟩
  have stripped : py.strip (String.ofList (scheme ++ ':' :: rest)) =
      String.ofList (scheme ++ ':' :: rest.rdropWhile py.isSpace) := by
    refine String.toList_inj.mp ?_
    rw [strip_stop urls (urls.graphic ':' (by decide) (by decide)), String.toList_ofList]
    have kept := solid_of_scheme urls valid []
    rw [List.append_nil] at kept
    rw [kept]
  rw [splits, stripped, urlsplit_scheme valid]

theorem canonicalUrl_scheme (urls : py.ParsesUrls) {scheme other rest : String}
    (valid : isScheme scheme.toList = true) (valid' : isScheme other.toList = true) :
    canonicalUrl py (scheme ++ ":" ++ rest) = canonicalUrl py (other ++ ":" ++ rest) := by
  obtain ⟨accepts, _, cut⟩ := urlsplit_strip_scheme urls
  have listed : ∀ front : String,
      front ++ ":" ++ rest = String.ofList (front.toList ++ ':' :: rest.toList) := by
    intro front
    refine String.toList_inj.mp ?_
    simp
  refine canonicalUrl_congr ?_
  rw [listed, listed, cut _ _ valid, cut _ _ valid']

theorem canonicalUrl_schemeless (urls : py.ParsesUrls) {scheme rest : String}
    (valid : isScheme scheme.toList = true) :
    canonicalUrl py (scheme ++ "://" ++ rest) = canonicalUrl py ("//" ++ rest) := by
  obtain ⟨accepts, splits, cut⟩ := urlsplit_strip_scheme urls
  have slash : py.isSpace '/' = false := urls.graphic '/' (by decide) (by decide)
  have listed : scheme ++ "://" ++ rest =
      String.ofList (scheme.toList ++ ':' :: '/' :: '/' :: rest.toList) := by
    refine String.toList_inj.mp ?_
    simp
  have listed' : "//" ++ rest = String.ofList (['/'] ++ '/' :: rest.toList) := by
    refine String.toList_inj.mp ?_
    simp
  have stripped : py.strip ("//" ++ rest) =
      String.ofList ('/' :: '/' :: rest.toList.rdropWhile py.isSpace) := by
    refine String.toList_inj.mp ?_
    rw [listed', strip_stop urls slash, String.toList_ofList]
    simp [slash]
  have trimmed : ('/' :: '/' :: rest.toList).rdropWhile py.isSpace =
      '/' :: '/' :: rest.toList.rdropWhile py.isSpace := by
    have grouped : ('/' :: '/' :: rest.toList).reverse =
        rest.toList.reverse ++ '/' :: ['/'] := by simp
    rw [List.rdropWhile, grouped, dropWhile_stop slash, List.rdropWhile]
    simp
  refine canonicalUrl_congr ?_
  rw [listed, cut _ _ valid, stripped, trimmed, splits, urlsplit_slashes]
  rfl

/-- The split of a URL with a fragment is that of what stands before it. -/
theorem urlsplit_strip_fragment (urls : py.ParsesUrls) (url fragment : String) :
    py.urlsplit (py.strip (url ++ "#" ++ fragment)) =
      py.urlsplit (String.ofList (url.toList.dropWhile py.isSpace)) := by
  obtain ⟨accepts, splits⟩ := urls.splits
  have listed : url ++ "#" ++ fragment =
      String.ofList (url.toList ++ '#' :: fragment.toList) := by
    refine String.toList_inj.mp ?_
    simp
  have stripped : py.strip (url ++ "#" ++ fragment) = String.ofList
      (url.toList.dropWhile py.isSpace ++ '#' :: fragment.toList.rdropWhile py.isSpace) := by
    refine String.toList_inj.mp ?_
    rw [listed, strip_stop urls (urls.graphic '#' (by decide) (by decide)), String.toList_ofList]
  rw [splits, stripped, urlsplit_fragment]

end Invariance

section Resource

theorem removePrefix_subset {start text : String} {c : Char}
    (member : c ∈ (removePrefix start text).toList) : c ∈ text.toList := by
  rw [removePrefix] at member
  split at member
  · rw [String.toList_ofList] at member
    exact List.mem_of_mem_drop member
  · exact member

/-- The three parts a canonical form is glued from. -/
structure Glued (py : Python) (parts : SplitResult) : Prop where
  host : Cut (· == '/') (hostOf py parts).toList (rstripChar '/' parts.path).toList
  plain : '?' ∉ (hostOf py parts).toList ++ (rstripChar '/' parts.path).toList

theorem rstripChar_prefix (c : Char) (text : String) :
    (rstripChar c text).toList <+: text.toList := by
  rw [rstripChar, String.toList_ofList]
  exact List.rdropWhile_prefix (· == c) text.toList

theorem glued_of_split (urls : py.ParsesUrls) {url : String} {parts : SplitResult}
    (split : py.urlsplit url = some parts) (named : hostOf py parts ≠ "") : Glued py parts := by
  obtain ⟨accepts, splits⟩ := urls.splits
  have located : parts.netloc ≠ "" := by
    intro none
    rw [hostOf, none, urls.foldsNothing] at named
    exact named rfl
  rw [splits] at split
  obtain ⟨plain, rooted, single⟩ := splitParts_path split located
  have host : ∀ c ∈ (hostOf py parts).toList, isDelimiter c = false := by
    intro c member
    by_contra delimiter
    rw [Bool.not_eq_false] at delimiter
    have present := urls.folds _ c (removePrefix_subset member) delimiter
    rw [plain c present] at delimiter
    cases delimiter
  have shorter := rstripChar_prefix '/' parts.path
  refine ⟨⟨fun c member => ?_, fun c head => ?_⟩, fun member => ?_⟩
  · refine beq_false_of_ne ?_
    rintro rfl
    cases host _ member
  · obtain ⟨rest, whole⟩ := shorter
    cases kept : (rstripChar '/' parts.path).toList with
    | nil => simp [kept] at head
    | cons first more =>
      rw [kept] at head whole
      have same : c = first := by simpa using head.symm
      rw [same, rooted first (by rw [← whole]; rfl)]
      rfl
  · rcases List.mem_append.mp member with inHost | inPath
    · cases host _ inHost
    · exact single (shorter.subset inPath)

/-- The canonical form of a URL with a host. -/
theorem canonicalUrl_eq {url : String} {parts : SplitResult}
    (split : py.urlsplit (py.strip url) = some parts) (named : hostOf py parts ≠ "") :
    (canonicalUrl py url).toList =
      ((hostOf py parts).toList ++ (rstripChar '/' parts.path).toList) ++
        if py.urlencode (keptQuery py parts) ≠ "" then
          '?' :: (py.urlencode (keptQuery py parts)).toList else [] := by
  rw [canonicalUrl, split]
  change (if hostOf py parts = "" then "" else hostOf py parts ++ rstripChar '/' parts.path ++
    if py.urlencode (keptQuery py parts) ≠ "" then
      "?" ++ py.urlencode (keptQuery py parts) else "").toList = _
  rw [if_neg named, String.toList_append, String.toList_append]
  split
  · simp
  · simp

theorem canonicalUrl_nameless {url : String} {parts : SplitResult}
    (split : py.urlsplit (py.strip url) = some parts) (nameless : hostOf py parts = "") :
    canonicalUrl py url = "" := by
  rw [canonicalUrl, split]
  exact if_pos nameless

theorem canonicalUrl_ne_empty {url : String} {parts : SplitResult}
    (split : py.urlsplit (py.strip url) = some parts) (named : hostOf py parts ≠ "") :
    canonicalUrl py url ≠ "" := by
  intro empty
  have form := canonicalUrl_eq split named
  rw [empty, String.toList_empty] at form
  have none := (List.append_eq_nil_iff.mp (List.append_eq_nil_iff.mp form.symm).1).1
  exact named (String.toList_eq_nil_iff.mp none)

theorem sameResource_iff (urls : py.ParsesUrls) {u v : String} {first second : SplitResult}
    (split : py.urlsplit (py.strip u) = some first)
    (split' : py.urlsplit (py.strip v) = some second) (named : hostOf py first ≠ "")
    (named' : hostOf py second ≠ "") :
    canonicalUrl py u = canonicalUrl py v ↔ SameResource py first second := by
  have glued := glued_of_split urls split named
  have glued' := glued_of_split urls split' named'
  rw [← String.toList_inj, canonicalUrl_eq split named, canonicalUrl_eq split' named']
  constructor
  · intro same
    have cut : ∀ {front : List Char} {query : String}, '?' ∉ front →
        Cut (· == '?') front (if query ≠ "" then '?' :: query.toList else []) := by
      intro front query plain
      refine ⟨fun c member => beq_false_of_ne ?_, fun c head => ?_⟩
      · rintro rfl
        exact plain member
      · split at head
        · rw [← Option.some.inj head]
          rfl
        · cases head
    obtain ⟨fronts, queries⟩ := (cut glued.plain).unique (cut glued'.plain) same
    obtain ⟨hosts, paths⟩ := glued.host.unique glued'.host fronts
    refine ⟨String.toList_inj.mp hosts, String.toList_inj.mp paths, ?_⟩
    have encoded : py.urlencode (keptQuery py first) = py.urlencode (keptQuery py second) := by
      split at queries <;> split at queries
      · exact String.toList_inj.mp (List.cons.inj queries).2
      · cases queries
      · cases queries
      · rename_i none none'
        rw [not_not.mp none, not_not.mp none']
    rw [urls.encodes] at encoded
    exact urlencode_injective encoded
  · rintro ⟨host, path, query⟩
    rw [host, path, query]

/-- A URL that has a host is not taken for one that has none. -/
theorem resource_iff (urls : py.ParsesUrls) {u v : String} {first second : SplitResult}
    (split : py.urlsplit (py.strip u) = some first)
    (split' : py.urlsplit (py.strip v) = some second)
    (named : hostOf py first ≠ "" ∨ hostOf py second ≠ "") :
    canonicalUrl py u = canonicalUrl py v ↔ SameResource py first second := by
  by_cases left : hostOf py first = ""
  · have right := named.resolve_left (not_not.mpr left)
    refine iff_of_false (fun same => ?_) fun same => right (same.host.symm.trans left)
    rw [canonicalUrl_nameless split left] at same
    exact canonicalUrl_ne_empty split' right same.symm
  · by_cases right : hostOf py second = ""
    · refine iff_of_false (fun same => ?_) fun same => left (same.host.trans right)
      rw [canonicalUrl_nameless split' right] at same
      exact canonicalUrl_ne_empty split left same
    · exact sameResource_iff urls split split' left right

end Resource

/-- Unless both hosts are `www.` alone, the canonical form tells host, path and kept query
apart and nothing else. -/
theorem canonicalUrl_identifies (py : Python) (urls : py.ParsesUrls) : Identifies py where
  resource _ _ _ _ split split' named := resource_iff urls split split' named
  nameless _ _ split nameless := canonicalUrl_nameless split nameless
  blanks _ url _ front back := canonicalUrl_congr (by rw [strip_blanks urls front back url])
  scheme _ _ _ valid valid' := canonicalUrl_scheme urls valid valid'
  schemeless _ _ valid := canonicalUrl_schemeless urls valid
  fragment url first second := canonicalUrl_congr <| by
    rw [urlsplit_strip_fragment urls, urlsplit_strip_fragment urls]
  fragmentless url fragment solid := canonicalUrl_congr <| by
    rw [urlsplit_strip_fragment urls, ← strip_of_solid urls solid, String.ofList_toList]

/-- A plain query: no percent signs and no plus signs. -/
def plainQsl (query : String) : List (String × String) :=
  ((query.toList.splitOn '&').filter fun part => !part.isEmpty).map fun part =>
    (String.ofList (part.takeWhile (· ≠ '=')), String.ofList ((part.dropWhile (· ≠ '=')).drop 1))

/-- Python on plain URLs. -/
def plainUrls : Python :=
  { Python.plain with
    urlsplit := urlsplit fun _ => true
    parseQsl := plainQsl
    urlencode := urlencode }

theorem delimiter_of_toLower {c : Char} (delimiter : isDelimiter c.toLower = true) :
    c.toLower = c := by
  by_cases upper : c.val ≥ 'A'.val ∧ c.val ≤ 'Z'.val
  · have lower : c.toLower.val = c.val + ('a'.val - 'A'.val) := congrArg Char.val (dif_pos upper)
    have letter : 97 ≤ c.toLower.toNat := by
      rw [Char.toNat, lower]
      simp only [ge_iff_le, UInt32.le_iff_toNat_le, UInt32.toNat_add, seval] at upper ⊢
      omega
    rcases of_decide_eq_true delimiter with same | same | same <;>
      exact absurd letter (by rw [same]; decide)
  · exact dif_neg upper

theorem plainUrls_parses : plainUrls.ParsesUrls where
  splits := ⟨fun _ => true, rfl⟩
  encodes := rfl
  strips _ := rfl
  graphic c above _ := by
    refine Bool.eq_false_iff.mpr fun white => ?_
    simp only [plainUrls, Python.plain, Char.isWhitespace, Bool.or_eq_true,
      decide_eq_true_eq] at white
    rcases white with ((rfl | rfl) | rfl) | rfl <;> exact absurd above (by decide)
  foldsNothing := rfl
  folds text c member delimiter := by
    simp only [plainUrls, Python.plain, String.toList_ofList] at member
    obtain ⟨letter, present, rfl⟩ := List.mem_map.mp member
    rwa [delimiter_of_toLower delimiter]

/-- A story link with and without its noise. -/
theorem link_identified :
    canonicalUrl plainUrls "https://www.Example.com/a/b/?utm_source=x&id=7" =
      canonicalUrl plainUrls "http://example.com/a/b?id=7#frag" :=
  ((canonicalUrl_identifies plainUrls plainUrls_parses).resource _ _
    ⟨"www.Example.com", "/a/b/", "utm_source=x&id=7"⟩ ⟨"example.com", "/a/b", "id=7"⟩
    (by decide +kernel) (by decide +kernel) (.inl (by decide +kernel))).mpr
    ⟨by decide +kernel, by decide +kernel, by decide +kernel⟩

/-- Of a host that is `www.` alone nothing is left, and no URL of it has a canonical form. -/
theorem bare_www_merged : ∃ first second,
    plainUrls.urlsplit (plainUrls.strip "http://www./a") = some first ∧
      plainUrls.urlsplit (plainUrls.strip "http://www./b") = some second ∧
      first.netloc ≠ "" ∧ second.netloc ≠ "" ∧
      canonicalUrl plainUrls "http://www./a" = canonicalUrl plainUrls "http://www./b" ∧
      ¬ SameResource plainUrls first second := by
  refine ⟨⟨"www.", "/a", ""⟩, ⟨"www.", "/b", ""⟩, by decide +kernel, by decide +kernel,
    by decide, by decide, by decide +kernel, fun same => ?_⟩
  exact absurd same.path (by decide +kernel)

end NewsAggregator.Trust
