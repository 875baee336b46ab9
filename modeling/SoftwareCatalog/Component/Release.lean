import SoftwareCatalog.Component.Word
import SoftwareCatalog.Component.Locale
import SoftwareCatalog.Component.Collection

namespace SoftwareCatalog

/-- The maturity of a release. -/
inductive ReleaseKind where
  | unset | stable | development
deriving DecidableEq, Repr, Inhabited

namespace ReleaseKind

def name : ReleaseKind → String
  | .unset => "unknown"
  | .stable => "stable"
  | .development => "development"

def ofName? : String → Option ReleaseKind
  | "stable" => some .stable
  | "development" => some .development
  | _ => none

instance : Word ReleaseKind := ⟨name, ofName?⟩

theorem ofName?_name {k : ReleaseKind} (h : k ≠ .unset) : ofName? k.name = some k := by
  cases k <;> simp_all [name, ofName?]

end ReleaseKind

/-- How soon a release should be installed. -/
inductive Urgency where
  | unset | low | medium | high | critical
deriving DecidableEq, Repr, Inhabited

namespace Urgency

def name : Urgency → String
  | .unset => "unknown"
  | .low => "low"
  | .medium => "medium"
  | .high => "high"
  | .critical => "critical"

def ofName? : String → Option Urgency
  | "low" => some .low
  | "medium" => some .medium
  | "high" => some .high
  | "critical" => some .critical
  | _ => none

instance : Word Urgency := ⟨name, ofName?⟩

theorem ofName?_name {k : Urgency} (h : k ≠ .unset) : ofName? k.name = some k := by
  cases k <;> simp_all [name, ofName?]

end Urgency

namespace Urgency

def level : Urgency → Nat
  | .unset => 0
  | .low => 1
  | .medium => 2
  | .high => 3
  | .critical => 4

end Urgency

/-- One entry of the release history. -/
@[ext] structure Release where
  version : Option String
  kind : ReleaseKind
  timestamp : Nat
  urgency : Urgency
  description : LocaleMap
  locations : List String
deriving DecidableEq

namespace Release

def hasDescription (r : Release) : Bool := !r.description.isEmpty

/-- Two releases are the same if both have the same version. -/
def same (a b : Release) : Bool := a.version.isSome && a.version == b.version

/-- Fills what `r` lacks from another description of the same release. -/
def absorb (r s : Release) : Release where
  version := r.version
  kind := if r.kind = .unset then s.kind else r.kind
  timestamp := if r.timestamp = 0 then s.timestamp else r.timestamp
  urgency := if r.urgency = .unset then s.urgency else r.urgency
  description := if r.hasDescription then r.description else s.description
  locations := s.locations.foldl addNew r.locations

/-- Adds a release; the first entry that is the same absorbs it. -/
def addTo : List Release → Release → List Release
  | [], r => [r]
  | e :: es, r => if e.same r then e.absorb r :: es else e :: addTo es r

end Release

end SoftwareCatalog
