import SoftwareCatalog.Component.Subsume

namespace SoftwareCatalog

/-- What a patch gives to a component. Its formats stay behind: the file of a patch does not keep
a component alive. -/
def patchFlags (patch : Component) : SubsumeFlags :=
  let flags := (SubsumeFlags.all.erase .formats).insert .noOverwrite
  if patch.mergeKind = .replace then flags.insert .replace else flags

def patchMatches (patch c : Component) : Bool :=
  if patch.hallmarks.has .matchAnyPrefix then patch.id == c.id else patch.sameIdentity c

/-- Gives a patch to a component that it matches. -/
def applyPatch (c patch : Component) : Component :=
  if patchMatches patch c then c.subsume (patchFlags patch) patch else c

/-- Which of two descriptions of one component stays. -/
inductive Survivor where
  | stored | incoming
deriving DecidableEq, Repr

/-- The outcome of a comparison of two descriptions, with what they took from each other. -/
structure Reconciled where
  survivor : Survivor
  stored : Component
  incoming : Component

/-- What the survivor takes over in any case. -/
def salvage : SubsumeFlags := .ofList [.formats, .releases]

/-- Both descriptions fill the gaps of each other. -/
def twoWay : SubsumeFlags := (SubsumeFlags.all.insert .bothWays).insert .dedupe

def keepStored (stored incoming : Component) : Reconciled :=
  ⟨.stored, stored.subsume salvage incoming, incoming⟩

def keepIncoming (stored incoming : Component) : Reconciled :=
  ⟨.incoming, stored, incoming.subsume salvage stored⟩

def mergeBoth (survivor : Survivor) (stored incoming : Component) : Reconciled :=
  let m := stored.mergeWith twoWay incoming
  ⟨survivor, m.1, m.2⟩

/-- The higher priority stays. Of equal ones both are merged, and a launcher gives way to its own
metadata. -/
def reconcileByPriority (stored incoming : Component) : Reconciled :=
  if incoming.priority < stored.priority then keepStored stored incoming
  else if stored.priority < incoming.priority then keepIncoming stored incoming
  else if stored.formatKind = .desktop && incoming.formatKind.isLocalMetadata then
    mergeBoth .incoming stored incoming
  else mergeBoth .stored stored incoming

/-- Decides between two descriptions of one component, first by the trust in their formats. -/
def reconcile (preferLocal : Bool) (stored incoming : Component) : Reconciled :=
  let old := stored.formatKind
  let new := incoming.formatKind
  if preferLocal then
    if new.isRemote && old.isLocal then keepStored stored incoming
    else if new.isLocal && old.isRemote then keepIncoming stored incoming
    else reconcileByPriority stored incoming
  else if old = .appStream && new.isLocalMetadata then keepIncoming stored incoming
  else if old.isLocalMetadata && new = .appStream then mergeBoth .stored stored incoming
  else reconcileByPriority stored incoming

end SoftwareCatalog
