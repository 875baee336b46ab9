import SoftwareCatalog.Store.Basic

namespace SoftwareCatalog

/-- Whether an addon and a component that it extends belong together. -/
def Component.hosts (parent addon : Component) : Bool :=
  parent.scope == addon.scope && parent.bundleKind == addon.bundleKind

namespace Store

/-- Attaches an addon to the records that it extends. -/
def link (s : Store) (addon : Component) : Store :=
  let keys := addon.extendedIds.flatMap s.keysOf
  { s with records := s.records.map fun r =>
      if keys.contains r.key && r.component.hosts addon then r.attach addon.uniqueId else r }

/-- Detaches an addon from all records with the given IDs. -/
def unlink (s : Store) (ids : List String) (addon : String) : Store :=
  let keys := ids.flatMap s.keysOf
  { s with records := s.records.map fun r =>
      if keys.contains r.key then r.detach addon else r }

/-- Points a unique ID at the first record that has it; another one was to go. -/
def reindex (s : Store) (id : Option String) (uniqueId : String) : Store :=
  match (id.toList.flatMap s.keysOf).find? fun k => (s.find? k).any (·.uniqueId == uniqueId) with
  | some k => { s with keyByUniqueId := s.keyByUniqueId.insert uniqueId k }
  | none => s

/-- Takes a unique ID away from a record, if it leads there. -/
def unindex (s : Store) (key : Nat) (id : Option String) (uniqueId : String) : Store :=
  if s.keyByUniqueId.get? uniqueId = some key then
    reindex { s with keyByUniqueId := s.keyByUniqueId.erase uniqueId } id uniqueId
  else s

/-- Lets the unique ID and the package names of a component lead to its record. -/
def index (s : Store) (key : Nat) (c : Component) : Store :=
  { s with
    keyByUniqueId := s.keyByUniqueId.insert c.uniqueId key
    keyByPkgname := c.pkgnames.foldl (fun m p => m.insert p key) s.keyByPkgname }

/-- Stores a component under a new key. -/
def insert (s : Store) (c : Component) : Store :=
  let key := s.nextKey
  let stored : Store := { s with
    nextKey := key + 1
    records := s.records ++ [.ofComponent key c]
    keysById := c.id.toList.foldl (fun m id => m.modifyD id [] (· ++ [key])) s.keysById }
  let s := stored.index key c
  (if c.kind = .addon then s.link c else s).announce (.added c.uniqueId)

/-- Brings the indices and attachments of a record up to date after it changed in place.
`previous` is the unique ID that it had before. -/
def refresh (s : Store) (key : Nat) (previous : String) : Store :=
  match s.find? key with
  | none => s
  | some c =>
    let s := if c.kind = .addon then (s.unlink c.extendedIds previous).link c else s
    let s := if previous ≠ c.uniqueId then s.unindex key c.id previous else s
    (s.index key c).announce (.modified c.uniqueId)

/-- Changes the component of a record in place. -/
def update (s : Store) (key : Nat) (f : Component → Component) : Store :=
  match s.find? key with
  | none => s
  | some c => (s.modify key fun r => r.replace (f c)).refresh key c.uniqueId

/-- Drops a key from the bucket of an ID, and the bucket with its last key. -/
def dropKey (buckets : TextMap (List Nat)) (id : String) (key : Nat) : TextMap (List Nat) :=
  match (buckets.getD id []).filter (· ≠ key) with
  | [] => buckets.erase id
  | keys => buckets.insert id keys

/-- Removes a record and all that leads to it. -/
def removeKey (s : Store) (key : Nat) : Store :=
  match s.find? key with
  | none => s
  | some c =>
    let s : Store := { s with
      records := s.records.filter (·.key ≠ key)
      keysById := c.id.toList.foldl (fun m id => dropKey m id key) s.keysById }
    let s := s.unindex key c.id c.uniqueId
    let s := if c.kind = .addon then s.unlink c.extendedIds c.uniqueId else s
    let s : Store := { s with
      keyByPkgname := s.keyByPkgname.filter fun p k => !(k == key && c.pkgnames.contains p) }
    s.announce (.removed c.uniqueId)

/-- Attaches all addons anew, and counts the attachments that they ask for. -/
def attachAddons (s : Store) : Nat × Store :=
  let addons := s.components.filter fun c => c.kind = .addon
  let links := addons.flatMap fun a =>
    ((a.extendedIds.flatMap s.keysOf).filter fun k => (s.find? k).any (·.hosts a)).map
      fun k => (k, a.uniqueId)
  let bare := { s with records := s.records.map Record.detachAll }
  (links.length, links.foldl (fun s l => s.modify l.1 (Record.attach l.2)) bare)

end Store

end SoftwareCatalog
