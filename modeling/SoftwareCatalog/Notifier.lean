namespace SoftwareCatalog

/-- What subscribers of a catalog are told. -/
inductive ChangeEvent where
  | changed
  | added (uniqueId : String)
  | removed (uniqueId : String)
  | modified (uniqueId : String)
deriving DecidableEq, Repr

/-- An event on one line. -/
def ChangeEvent.text : ChangeEvent → String
  | .changed => "changed"
  | .added u => "added " ++ u
  | .removed u => "removed " ++ u
  | .modified u => "modified " ++ u

/-- Sends events and holds back the general one while a guard is alive. -/
@[ext] structure Notifier where
  /-- The guards that are alive. -/
  guards : List Nat := []
  nextGuard : Nat := 0
  /-- Whether a change was marked that no general event has announced. -/
  dirty : Bool := false
  /-- All events that were sent, the oldest first. -/
  sent : List ChangeEvent := []
deriving DecidableEq, Repr

namespace Notifier

def isInhibited (n : Notifier) : Bool := !n.guards.isEmpty

def emit (n : Notifier) (e : ChangeEvent) : Notifier := { n with sent := n.sent ++ [e] }

/-- Announces a marked change. -/
def flush (n : Notifier) : Notifier :=
  if n.dirty then { n.emit .changed with dirty := false } else n

def markChanged (n : Notifier) : Notifier :=
  let n := { n with dirty := true }
  if n.isInhibited then n else n.flush

/-- A new guard. -/
def inhibit (n : Notifier) : Nat × Notifier :=
  (n.nextGuard, { n with guards := n.nextGuard :: n.guards, nextGuard := n.nextGuard + 1 })

/-- Ends a guard; the last one announces what changed meanwhile. -/
def release (n : Notifier) (guard : Nat) : Notifier :=
  if guard ∈ n.guards then
    let n := { n with guards := n.guards.erase guard }
    if n.isInhibited then n else n.flush
  else n

end Notifier

/-- What a subscriber receives: an event, or how many events it missed. -/
inductive Delivery where
  | event (e : ChangeEvent)
  | lagged (missed : Nat)
deriving DecidableEq, Repr

def Delivery.text : Delivery → String
  | .event e => e.text
  | .lagged missed => "lagged " ++ toString missed

namespace Notifier

/-- A slow subscriber keeps the last events only, as many as this. -/
def capacity : Nat := 1024

/-- What a subscriber receives who has seen the first `seen` events. -/
def deliveries (n : Notifier) (seen : Nat) : List Delivery :=
  let waiting := n.sent.drop seen
  let missed := waiting.length - capacity
  (if missed = 0 then [] else [.lagged missed]) ++ (waiting.drop missed).map .event

end Notifier

end SoftwareCatalog
