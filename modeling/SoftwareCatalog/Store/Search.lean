import SoftwareCatalog.Search.Indexing
import SoftwareCatalog.Search.Ranking
import SoftwareCatalog.Store.Basic

namespace SoftwareCatalog.Store

/-- The stored components that the attached addons of a component stand for. -/
def addonsOf (s : Store) (c : Component) : List Component :=
  c.addons.filterMap fun u => (s.keyByUniqueId.get? u).bind s.find?

/-- The tokens of a record, built if they are not. -/
def tokensOf (s : Store) (r : Record) : Search.TokenCache :=
  r.tokens.getD (.build s.context r.component (s.addonsOf r.component))

/-- Builds all tokens that are not built yet. -/
def buildTokens (s : Store) : Store :=
  { s with records := s.records.map fun r => { r with tokens := some (s.tokensOf r) } }

/-- The hit of a record, unless a token scores nothing. -/
def hit? (s : Store) (tokens : List String) (r : Record) : Option Search.Hit :=
  let score := (s.tokensOf r).scoreAll tokens
  if score = 0 then none else some ⟨score, r.component.uniqueId⟩

/-- The ranked hits of a query. All tokens of it have to score; one without tokens finds nothing. -/
def search (s : Store) (query : String) : List Search.Hit × Store :=
  match s.context.queryTokens query with
  | [] => ([], s)
  | tokens => (Search.Hit.rank (s.records.filterMap (s.hit? tokens)), s.buildTokens)

end SoftwareCatalog.Store
