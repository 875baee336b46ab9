import SoftwareCatalog.Component.Kind
import SoftwareCatalog.Path

namespace SoftwareCatalog

/-- What a path was loaded as. -/
@[ext] structure Watch where
  scope : Scope
  arch : Option String
deriving DecidableEq, Repr

/-- The paths that were loaded, each written as it was first. -/
@[ext] structure WatchTable where
  entries : List (String × Watch) := []
deriving DecidableEq, Repr

namespace WatchTable

def find? (t : WatchTable) (parts : List PathPart) : Option Watch :=
  (t.entries.find? fun e => Path.parts e.1 == parts).map (·.2)

def get? (t : WatchTable) (path : String) : Option Watch := t.find? (Path.parts path)

def contains (t : WatchTable) (path : String) : Bool := (t.get? path).isSome

/-- The entry of a path, or else that of its directory. -/
def lookup (t : WatchTable) (path : String) : Option Watch :=
  (t.get? path).or ((Path.parentParts path).bind t.find?)

def insert (t : WatchTable) (path : String) (w : Watch) : WatchTable :=
  if t.contains path then
    ⟨t.entries.map fun e => if Path.same e.1 path then (e.1, w) else e⟩
  else ⟨t.entries ++ [(path, w)]⟩

def erase (t : WatchTable) (path : String) : WatchTable :=
  ⟨t.entries.filter fun e => !Path.same e.1 path⟩

def size (t : WatchTable) : Nat := t.entries.length

def paths (t : WatchTable) : List String := Path.sorted (t.entries.map (·.1))

end WatchTable

end SoftwareCatalog
