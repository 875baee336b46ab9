import SoftwareCatalog.Store.Change

namespace SoftwareCatalog.Store

/-- Removes records and counts those that were there. -/
def removeEach (s : Store) (keys : List Nat) : Nat × Store :=
  keys.foldl (fun r k => (r.1 + (r.2.find? k).toList.length, r.2.removeKey k)) (0, s)

def removeKeys (s : Store) (keys : List Nat) : Nat × Store :=
  let r := s.batch fun s => s.removeEach keys
  (r.1, r.2.settle)

/-- The record with the unique ID of a component, or else the first one of the same identity. -/
def keyOf? (s : Store) (c : Component) : Option Nat :=
  (s.keyByUniqueId.get? c.uniqueId).or
    (c.id.bind fun id => (s.keysOf id).find? fun k => (s.find? k).any (·.sameIdentity c))

/-- Removes the record that describes a component, if there is one. -/
def remove (s : Store) (c : Component) : Bool × Store :=
  match s.keyOf? c with
  | none => (false, s)
  | some k => ((s.find? k).isSome, s.removeKey k)

/-- Removes the records with an ID; its patches stay. -/
def removeById (s : Store) (id : String) : Nat × Store := s.removeKeys (s.keysOf id)

/-- Removes the record with a unique ID, or all that one with wildcards agrees with. -/
def removeByUniqueId (s : Store) (uniqueId : String) : Nat × Store :=
  s.removeKeys <|
    match s.keyByUniqueId.get? uniqueId with
    | some k => [k]
    | none =>
      if UniqueId.hasWildcard uniqueId then
        s.keysWhere fun c => UniqueId.agrees c.uniqueId uniqueId
      else []

def removeByMetadata (s : Store) (key value : String) : Nat × Store :=
  s.removeKeys (s.keysWhere fun c => c.metadata.get? key == some value)

/-- Removes all records and all patches. -/
def removeAll (s : Store) : Store :=
  settle { (s.removeKeys (s.records.map Record.key)).2 with patches := .empty }

/-- Strips a file from a record; a record without any format left is removed and counts. -/
def stripKey (filename : String) (r : Nat × Store) (key : Nat) : Nat × Store :=
  match r.2.find? key with
  | none => r
  | some c =>
    let s := r.2.modify key (Record.withoutFile filename)
    if (c.removeFormatsOf filename).formats = [] then (r.1 + 1, s.removeKey key)
    else (r.1, s.refresh key c.uniqueId)

/-- Forgets the patches of a file. -/
def dropPatchesOf (s : Store) (filename : String) : Store :=
  { s with patches :=
      (s.patches.map fun ps => ps.filter (!·.hasSourceFile filename)).filter fun _ ps => ps ≠ [] }

/-- Takes back what a file contributed, and counts the records that only it described. -/
def removeBySourceFile (s : Store) (filename : String) : Nat × Store :=
  let r := s.batch fun s =>
    let r := (s.keysWhere (·.hasSourceFile filename)).foldl (stripKey filename) (0, s)
    (r.1, r.2.dropPatchesOf filename)
  (r.1, r.2.settle)

end SoftwareCatalog.Store
