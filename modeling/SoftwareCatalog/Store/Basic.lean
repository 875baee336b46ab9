import SoftwareCatalog.Component.Pooled
import SoftwareCatalog.Notifier
import SoftwareCatalog.Pool
import SoftwareCatalog.Search.Indexing
import SoftwareCatalog.Source.Reader
import SoftwareCatalog.Store.Record
import SoftwareCatalog.WatchTable

namespace SoftwareCatalog

/-- A catalog with one record for each component, in the order of insertion, and the indices that
lead to the records by their keys. -/
structure Store where
  settings : Settings
  reader : Reader
  context : Search.Context
  pool : Pool := {}
  notifier : Notifier := {}
  watches : WatchTable := {}
  records : List Record := []
  nextKey : Nat := 0
  keysById : TextMap (List Nat) := .empty
  keyByUniqueId : TextMap Nat := .empty
  keyByPkgname : TextMap Nat := .empty
  /-- The patches for each ID in the order of their arrival. -/
  patches : TextMap (List Component) := .empty
  /-- For each metadata key that was asked for: the records by value. -/
  keysByMetadata : TextMap (TextMap (List Nat)) := .empty

namespace Store

def new (settings : Settings) (reader : Reader) : Store where
  settings := settings
  reader := reader
  context := .ofSettings settings.search

/-- Other stemming; tokens that are built already stay as they are. -/
def withStemmer (s : Store) (stem : Stem.Stemmer) : Store :=
  { s with context := { s.context with stem } }

def components (s : Store) : List Component := s.records.map (·.component)

def size (s : Store) : Nat := s.records.length

def find? (s : Store) (key : Nat) : Option Component :=
  (s.records.find? (·.key == key)).map (·.component)

def keysOf (s : Store) (id : String) : List Nat := s.keysById.getD id []

def resolve (s : Store) (keys : List Nat) : List Component := keys.filterMap s.find?

/-- The keys of the records whose component satisfies `p`. -/
def keysWhere (s : Store) (p : Component → Bool) : List Nat :=
  (s.records.filter fun r => p r.component).map (·.key)

def modify (s : Store) (key : Nat) (f : Record → Record) : Store :=
  { s with records := s.records.map fun r => if r.key = key then f r else r }

/-- Holds back the general event until the guard is released. -/
def inhibit (s : Store) : Nat × Store :=
  let n := s.notifier.inhibit
  (n.1, { s with notifier := n.2 })

def release (s : Store) (guard : Nat) : Store :=
  { s with notifier := s.notifier.release guard }

/-- Runs `f` under a guard. -/
def batch {α : Type} (s : Store) (f : Store → α × Store) : α × Store :=
  let g := s.inhibit
  let r := f g.2
  (r.1, r.2.release g.1)

/-- Tells of a change. What was indexed by metadata is void. -/
def announce (s : Store) (e : ChangeEvent) : Store :=
  { s with keysByMetadata := .empty, notifier := (s.notifier.emit e).markChanged }

/-- The shared texts that records, patches and indices still hold. -/
def heldTexts (s : Store) : List String :=
  s.components.flatMap Component.pooledTexts ++
    s.patches.values.flatten.flatMap Component.pooledTexts ++ s.keyByPkgname.keys

def poolUsage (s : Store) : PoolUsage :=
  let held := s.heldTexts
  s.pool.usage fun h => held.contains h.text

/-- Forgets the shared texts that nothing holds, and counts them. -/
def purgePool (s : Store) : Nat × Store :=
  let held := s.heldTexts
  let r := s.pool.purge fun h => held.contains h.text
  (r.1, { s with pool := r.2 })

/-- Forgets unused texts unless a batch is running. -/
def settle (s : Store) : Store := if s.notifier.isInhibited then s else s.purgePool.2

end Store

end SoftwareCatalog
