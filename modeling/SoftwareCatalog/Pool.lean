import SoftwareCatalog.TextMap

namespace SoftwareCatalog

/-- A text together with the allocation that holds it. -/
structure Handle where
  text : String
  allocation : Nat
deriving DecidableEq, Repr

/-- Texts that are kept once: each pooled text has one allocation. -/
@[ext] structure Pool where
  allocations : TextMap Nat := .empty
  nextAllocation : Nat := 0
deriving DecidableEq

/-- The content of a pool: its texts, their bytes, and the texts that are held outside of it. -/
structure PoolUsage where
  strings : Nat
  bytes : Nat
  shared : Nat
deriving DecidableEq, Repr

namespace Pool

/-- A new allocation that is not pooled. -/
def own (p : Pool) (text : String) : Handle × Pool :=
  (⟨text, p.nextAllocation⟩, { p with nextAllocation := p.nextAllocation + 1 })

/-- The pooled handle of a text; a text that is not pooled yet gets a new allocation. -/
def intern (p : Pool) (text : String) : Handle × Pool :=
  match p.allocations.get? text with
  | some n => (⟨text, n⟩, p)
  | none =>
    (⟨text, p.nextAllocation⟩,
      ⟨p.allocations.insert text p.nextAllocation, p.nextAllocation + 1⟩)

def internAll (p : Pool) (texts : List String) : Pool :=
  texts.foldl (fun p text => (p.intern text).2) p

def handles (p : Pool) : List Handle := p.allocations.entries.map fun e => ⟨e.1, e.2⟩

def size (p : Pool) : Nat := p.allocations.size

def isEmpty (p : Pool) : Bool := p.allocations.isEmpty

/-- Forgets the texts whose handle nobody holds, and counts them. -/
def purge (held : Handle → Bool) (p : Pool) : Nat × Pool :=
  let kept := p.allocations.filter fun text n => held ⟨text, n⟩
  (p.size - kept.size, { p with allocations := kept })

def usage (held : Handle → Bool) (p : Pool) : PoolUsage where
  strings := p.size
  bytes := p.allocations.keys.foldl (fun n text => n + text.utf8ByteSize) 0
  shared := p.handles.countP held

end Pool

/-- A pool and the handles that are alive, by the name of their slot. -/
@[ext] structure PoolSession where
  pool : Pool := {}
  slots : TextMap Handle := .empty
deriving DecidableEq

namespace PoolSession

def held (s : PoolSession) (h : Handle) : Bool := s.slots.values.contains h

def put (s : PoolSession) (slot : String) (r : Handle × Pool) : PoolSession :=
  ⟨r.2, s.slots.insert slot r.1⟩

def intern (s : PoolSession) (slot text : String) : PoolSession := s.put slot (s.pool.intern text)

def own (s : PoolSession) (slot text : String) : PoolSession := s.put slot (s.pool.own text)

/-- Puts the pooled handle of the same text into a slot; an empty slot has none. -/
def internInPlace? (s : PoolSession) (slot : String) : Option PoolSession :=
  (s.slots.get? slot).map fun h => s.put slot (s.pool.intern h.text)

/-- Empties a slot. -/
def drop (s : PoolSession) (slot : String) : PoolSession := { s with slots := s.slots.erase slot }

def purge (s : PoolSession) : Nat × PoolSession :=
  let r := s.pool.purge s.held
  (r.1, { s with pool := r.2 })

/-- Whether two slots hold one allocation. -/
def same? (s : PoolSession) (a b : String) : Option Bool :=
  (s.slots.get? a).bind fun h => (s.slots.get? b).map fun k => h.allocation == k.allocation

def usage (s : PoolSession) : PoolUsage := s.pool.usage s.held

end PoolSession

end SoftwareCatalog
