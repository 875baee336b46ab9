import SoftwareCatalog.Component.Kind
import SoftwareCatalog.Error
import SoftwareCatalog.Text.Fields

namespace SoftwareCatalog

/-- The six attributes that tell components apart. -/
@[ext] structure UniqueId where
  scope : Scope
  bundleKind : BundleKind
  origin : Option String
  kind : ComponentKind
  id : Option String
  branch : Option String
deriving DecidableEq, Repr

namespace UniqueId

def wildcard : String := "*"

/-- The text of a segment; an unset or empty one is a wildcard. -/
def segment (s : Option String) : String := ((s.bind Text.nonEmpty?)).getD wildcard

def segments (u : UniqueId) : List String := [
  if u.scope = .unset then wildcard else u.scope.name,
  if u.bundleKind = .unset then wildcard else u.bundleKind.name,
  segment u.origin,
  if u.kind = .unset then wildcard else u.kind.name,
  segment u.id,
  segment u.branch]

def render (u : UniqueId) : String := "/".intercalate u.segments

/-- Reads a segment; a wildcard leaves the attribute unset, as does an empty one. -/
def ofSegment (s : String) : Option String := if s = wildcard then none else Text.nonEmpty? s

def parse (s : String) : Except CatalogError UniqueId :=
  match Text.fields '/' s with
  | [scope, bundleKind, origin, kind, id, branch] => .ok {
      scope := Word.read (some scope)
      bundleKind := Word.read (some bundleKind)
      origin := ofSegment origin
      kind := Word.read (some kind)
      id := ofSegment id
      branch := ofSegment branch }
  | _ => .error (.invalidUniqueId s)

def valid (s : String) : Bool := (Text.fields '/' s).length == 6

def hasWildcard (s : String) : Bool := (Text.fields '/' s).any (· == wildcard)

def segmentMatches (x y : String) : Bool := x == wildcard || y == wildcard || x == y

/-- Whether two unique IDs agree where neither has a wildcard. -/
def agrees (a b : String) : Bool :=
  a == b || (valid a && valid b &&
    ((Text.fields '/' a).zip (Text.fields '/' b)).all fun p => segmentMatches p.1 p.2)

end UniqueId

end SoftwareCatalog
