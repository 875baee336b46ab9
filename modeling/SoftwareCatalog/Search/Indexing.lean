import SoftwareCatalog.Component.Basic
import SoftwareCatalog.Search.Stem
import SoftwareCatalog.Search.Words
import SoftwareCatalog.Settings.Basic

namespace SoftwareCatalog.Search

/-- The attributes that are searched, from the least to the most telling. -/
inductive Source where
  | origin | pkgname | mimetype | keyword | description | comment | name | id
deriving DecidableEq, Repr

/-- A sum of attributes has one bit for each. -/
def Source.weight : Source → Nat
  | .origin => 1
  | .pkgname => 2
  | .mimetype => 4
  | .keyword => 8
  | .description => 16
  | .comment => 32
  | .name => 64
  | .id => 128

/-- How texts become tokens. -/
structure Context where
  locales : List String
  minTokenLength : Nat
  stem : Stem.Stemmer

namespace Context

def ofSettings (s : SearchSettings) : Context :=
  ⟨s.locales, s.minTokenLength, Stem.Stemmer.ofSetting s.stemming⟩

/-- The token of a word, unless it is too short or too common. -/
def token (ctx : Context) (word : String) : Option String :=
  if !isIndexable ctx.minTokenLength word || isStopWord word then none
  else
    let stem := ctx.stem word
    if stem = "" || isStopWord stem then none else some stem

/-- The token of a value as a whole. -/
def wholeToken (ctx : Context) (value : String) : Option String :=
  let lower := Text.lower value
  if lower = "" then none
  else
    let stem := ctx.stem lower
    some (if stem = "" then lower else stem)

/-- The tokens of one word of a query; one with inner punctuation also counts as a whole. -/
def wordTokens (ctx : Context) (raw : List Char) : List String :=
  let word := Text.trimList Text.isPunctuation raw
  let text := String.ofList word
  (if word.any fun c => Text.isPunctuation c && c ≠ '-' then (ctx.wholeToken text).toList else []) ++
    (splitWords text).filterMap ctx.token

/-- The tokens of a query, each once. -/
def queryTokens (ctx : Context) (query : String) : List String :=
  ((Text.blankFields query).flatMap fun w => ctx.wordTokens w.toList).foldl addNew []

end Context

namespace TokenCache

def wholeEntry (ctx : Context) (source : Source) (value : String) : List (String × Nat) :=
  (ctx.wholeToken value).toList.map fun t => (t, source.weight)

def textEntries (ctx : Context) (source : Source) (text : String) : List (String × Nat) :=
  ((splitWords text).filterMap ctx.token).map fun t => (t, source.weight)

def localeEntries (ctx : Context) (c : Component) (locale : String) : List (String × Nat) :=
  ((c.names.get? locale).toList.flatMap (textEntries ctx .name)) ++
  ((c.comments.get? locale).toList.flatMap (textEntries ctx .comment)) ++
  ((c.descriptions.get? locale).toList.flatMap fun d =>
    textEntries ctx .description (stripMarkup d)) ++
  ((c.keywordsIn (some locale)).flatMap (textEntries ctx .keyword))

/-- All tokens of a component, each with the attribute it comes from. -/
def entriesOf (ctx : Context) (c : Component) : List (String × Nat) :=
  (c.id.toList.flatMap fun id => wholeEntry ctx .id id ++ textEntries ctx .id id) ++
  ctx.locales.flatMap (localeEntries ctx c) ++
  c.mimetypes.flatMap (wholeEntry ctx .mimetype) ++
  c.pkgnames.flatMap (wholeEntry ctx .pkgname) ++
  c.origin.toList.flatMap (wholeEntry ctx .origin)

def addComponent (ctx : Context) (t : TokenCache) (c : Component) : TokenCache :=
  (entriesOf ctx c).foldl insert t

/-- The tokens of a component and of the addons attached to it. -/
def build (ctx : Context) (c : Component) (addons : List Component) : TokenCache :=
  addons.foldl (addComponent ctx) (addComponent ctx empty c)

end TokenCache

end SoftwareCatalog.Search
