import SoftwareCatalog.Component.Validation
import SoftwareCatalog.Store.Add

namespace SoftwareCatalog.Store

def byId (s : Store) (id : String) : List Component := s.resolve (s.keysOf id)

/-- The components with an ID, or else those with the ending of launchers toggled. -/
def byIdWithFallbacks (s : Store) (id : String) : List Component :=
  match s.byId id with
  | [] => s.byId (toggleDesktopEnding id)
  | cs => cs

/-- All components whose unique ID agrees with the given one. An ID in it narrows the search. -/
def agreeing (s : Store) (uniqueId : String) : List Component :=
  let candidates :=
    match (UniqueId.parse uniqueId).toOption.bind (·.id) with
    | some id => s.byId id
    | none => s.components
  candidates.filter fun c => UniqueId.agrees c.uniqueId uniqueId

/-- The component with a unique ID; one with wildcards has the first that it agrees with. -/
def byUniqueId (s : Store) (uniqueId : String) : Option Component :=
  match s.keyByUniqueId.get? uniqueId with
  | some k => s.find? k
  | none => if UniqueId.hasWildcard uniqueId then (s.agreeing uniqueId).head? else none

/-- The component that a package name was indexed for last. -/
def byPkgname (s : Store) (name : String) : Option Component :=
  (s.keyByPkgname.get? name).bind s.find?

def byProvide (s : Store) (kind : ProvideKind) (value : String) : Option Component :=
  s.components.find? fun c => c.provides.contains ⟨kind, value⟩

def byLaunchable (s : Store) (kind : LaunchableKind) (value : String) : Option Component :=
  s.components.find? fun c => c.launchables.contains ⟨kind, value⟩

/-- The records by their value for a metadata key. -/
def metadataBuckets (s : Store) (key : String) : TextMap (List Nat) :=
  s.records.foldl (fun m r =>
    match r.component.metadata.get? key with
    | some v => m.modifyD v [] (· ++ [r.key])
    | none => m) .empty

/-- The components with a value for a metadata key. The first query for a key indexes it. -/
def byMetadata (s : Store) (key value : String) : List Component × Store :=
  match s.keysByMetadata.get? key with
  | some buckets => (s.resolve (buckets.getD value []), s)
  | none =>
    let buckets := s.metadataBuckets key
    (s.resolve (buckets.getD value []),
      { s with keysByMetadata := s.keysByMetadata.insert key buckets })

/-- The IDs of the components of a kind, each once and in order. -/
def idsOfKind (s : Store) (kind : ComponentKind) : List String :=
  let ids := (s.components.filter (·.kind == kind)).filterMap (·.id)
  (TextMap.ofList (ids.map fun id => (id, ()))).keys

/-- The IDs that there are patches for, in order. -/
def patchedIds (s : Store) : List String := s.patches.keys

def patchesFor (s : Store) (id : String) : List Component := s.patches.getD id []

/-- The components that a validation finds fault with. -/
def problems (s : Store) (severity : Severity) : List (Component × List Problem) :=
  (s.components.map fun c => (c, c.problems severity)).filter (·.2 ≠ [])

end SoftwareCatalog.Store
