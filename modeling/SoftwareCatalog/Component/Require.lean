import SoftwareCatalog.Component.Word

namespace SoftwareCatalog

/-- What a requirement is about. -/
inductive RequireKind where
  | unset | id | firmware | hardware | modalias | kernel | memory
deriving DecidableEq, Repr, Inhabited

namespace RequireKind

def name : RequireKind → String
  | .unset => "unknown"
  | .id => "id"
  | .firmware => "firmware"
  | .hardware => "hardware"
  | .modalias => "modalias"
  | .kernel => "kernel"
  | .memory => "memory"

def ofName? : String → Option RequireKind
  | "id" => some .id
  | "firmware" => some .firmware
  | "hardware" => some .hardware
  | "modalias" => some .modalias
  | "kernel" => some .kernel
  | "memory" => some .memory
  | _ => none

instance : Word RequireKind := ⟨name, ofName?⟩

theorem ofName?_name {k : RequireKind} (h : k ≠ .unset) : ofName? k.name = some k := by
  cases k <;> simp_all [name, ofName?]

end RequireKind

/-- How a required version is compared. -/
inductive RequireCompare where
  | unset | eq | ne | lt | gt | le | ge | glob | regex
deriving DecidableEq, Repr, Inhabited

namespace RequireCompare

def name : RequireCompare → String
  | .unset => "unknown"
  | .eq => "eq"
  | .ne => "ne"
  | .lt => "lt"
  | .gt => "gt"
  | .le => "le"
  | .ge => "ge"
  | .glob => "glob"
  | .regex => "regex"

def ofName? : String → Option RequireCompare
  | "eq" => some .eq
  | "ne" => some .ne
  | "lt" => some .lt
  | "gt" => some .gt
  | "le" => some .le
  | "ge" => some .ge
  | "glob" => some .glob
  | "regex" => some .regex
  | _ => none

instance : Word RequireCompare := ⟨name, ofName?⟩

theorem ofName?_name {k : RequireCompare} (h : k ≠ .unset) : ofName? k.name = some k := by
  cases k <;> simp_all [name, ofName?]

end RequireCompare

/-- A requirement on the target system. -/
@[ext] structure Require where
  kind : RequireKind
  compare : RequireCompare
  value : Option String
  version : Option String
deriving DecidableEq, Repr

end SoftwareCatalog
