import NewsAggregator.Python

/-! Wire-service attribution: the agency a text credits. -/

namespace NewsAggregator.Trust

def datelineWindow : Nat := 160

/-- Parenthesized tags, in the dateline window only. -/
def datelineTags : List (String × String) :=
  [("ap", "(AP)"), ("reuters", "(Reuters)"), ("afp", "(AFP)"), ("cnn", "(CNN)"),
    ("gray", "(Gray News)"), ("scripps", "(Scripps News)"), ("nexstar", "(NEXSTAR)")]

/-- Full names, anywhere in the text and between word boundaries. -/
def creditNames : List (String × List String) :=
  [("ap", ["Associated Press"]), ("reuters", ["Reuters"]),
    ("afp", ["Agence France-Presse", "AFP"]), ("cnn", ["CNN Newsource"]),
    ("gray", ["Gray News"]), ("scripps", ["Scripps News"]), ("nexstar", ["Nexstar"])]

/-- Search of `\bname\b` for a name that begins and ends with word characters;
`before` is whether the previous character is one. -/
def searchName (isWord : Char → Bool) (name : List Char) : Bool → List Char → Bool
  | before, [] => name.isEmpty && !before
  | before, c :: rest =>
    (!before && decide (name <+: c :: rest) &&
        !(((c :: rest).drop name.length).head?.any isWord)) ||
      searchName isWord name (isWord c) rest

/-- Slug of the credited service, or `""`; a dateline tag wins over a name. -/
def wireRef (py : Python) (text : String) : String :=
  let chars := text.toList
  let head := chars.take datelineWindow
  match datelineTags.find? fun tag => decide (tag.2.toList <:+: head) with
  | some (slug, _) => slug
  | none =>
    match creditNames.find? fun credit =>
        credit.2.any fun name => searchName py.isWord name.toList false chars with
    | some (slug, _) => slug
    | none => ""

end NewsAggregator.Trust
