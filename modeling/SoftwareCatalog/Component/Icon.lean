import SoftwareCatalog.Component.Word

namespace SoftwareCatalog

/-- Where an icon is kept. -/
inductive IconKind where
  | unset | stock | cached | local | remote
deriving DecidableEq, Repr, Inhabited

namespace IconKind

def name : IconKind → String
  | .unset => "unknown"
  | .stock => "stock"
  | .cached => "cached"
  | .local => "local"
  | .remote => "remote"

def ofName? : String → Option IconKind
  | "stock" => some .stock
  | "cached" => some .cached
  | "local" => some .local
  | "remote" => some .remote
  | _ => none

instance : Word IconKind := ⟨name, ofName?⟩

theorem ofName?_name {k : IconKind} (h : k ≠ .unset) : ofName? k.name = some k := by
  cases k <;> simp_all [name, ofName?]

end IconKind

@[ext] structure Icon where
  kind : IconKind
  name : Option String
  url : Option String
  width : Nat
  height : Nat
  scale : Nat
deriving DecidableEq

namespace Icon

def same (a b : Icon) : Bool := decide (a = b)

/-- The width in pixels; a scale of zero counts as one. -/
def pixelWidth (i : Icon) : Nat := i.width * max i.scale 1

/-- The widest icon, of several the last. -/
def widest : List Icon → Option Icon
  | [] => none
  | i :: is =>
    match widest is with
    | none => some i
    | some j => if j.pixelWidth < i.pixelWidth then some i else some j

end Icon

end SoftwareCatalog
