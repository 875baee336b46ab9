import SoftwareCatalog.Store.Change
import SoftwareCatalog.Store.Reconcile

namespace SoftwareCatalog

/-- The ID that a component may have in catalogs that write the ending of launchers otherwise. -/
def toggleDesktopEnding (id : String) : String :=
  (Text.dropEnding? id ".desktop").getD (id ++ ".desktop")

namespace Store

/-- The first record with an ID, or with unique IDs the first one that is alike. -/
def firstWithId (s : Store) (id : String) (alike : Component → Bool) : Option Nat :=
  if s.settings.add.useUniqueId then (s.keysOf id).find? fun k => (s.find? k).any alike
  else (s.keysOf id).head?

/-- The record that describes the same component as `c`. -/
def existing? (s : Store) (c : Component) : Option Nat :=
  c.id.bind fun id =>
    (s.firstWithId id fun d => d.sameIdentity c).or
      (if s.settings.add.useMergeHeuristic then
        s.firstWithId (toggleDesktopEnding id) fun d => d.hosts c
      else none)

/-- Gives a patch to the records that it matches, and keeps it for those that come later. -/
def addPatch (s : Store) (id : String) (patch : Component) : Store :=
  let targets := (s.keysOf id).filter fun k => (s.find? k).any (patchMatches patch)
  let s := targets.foldl (fun s k => s.update k fun c => c.subsume (patchFlags patch) patch) s
  { s with patches := s.patches.modifyD id [] (· ++ [patch]) }

/-- Stores a component, or lets it meet the record that describes the same one. -/
def addRecord (s : Store) (c : Component) : Store :=
  match s.existing? c with
  | none => s.insert c
  | some key =>
    match s.find? key with
    | none => s.insert c
    | some item =>
      let r := reconcile s.settings.add.preferLocal item c
      match r.survivor with
      | .stored => s.update key fun _ => r.stored
      | .incoming => ((s.modify key fun e => e.replace r.stored).removeKey key).insert r.incoming

/-- Adds a component or a patch. One without an ID is refused. -/
def add (s : Store) (c : Component) : Store :=
  match c.id with
  | none => s
  | some id =>
    let s := { s with pool := s.pool.internAll c.pooledTexts }
    if c.mergeKind.isPatch then s.addPatch id c
    else s.addRecord ((s.patches.getD id []).foldl applyPatch c)

def addMany (s : Store) (cs : List Component) : Store :=
  (s.batch fun s => ((), cs.foldl add s)).2

end Store

end SoftwareCatalog
