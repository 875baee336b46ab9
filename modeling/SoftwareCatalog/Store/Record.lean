import SoftwareCatalog.Component.Basic

namespace SoftwareCatalog

/-- A stored component under the key that indices refer to, and beside it its search tokens once
they are built. -/
@[ext] structure Record where
  key : Nat
  component : Component
  tokens : Option Search.TokenCache := none
deriving DecidableEq

namespace Record

/-- A component comes with the tokens that were built for it. -/
def ofComponent (key : Nat) (c : Component) : Record := ⟨key, c.untokened, c.tokens⟩

/-- The component as its copies are, with its tokens. -/
def copy (r : Record) : Component := { r.component with tokens := r.tokens }

/-- Puts another component in place; tokens of the old one are void. -/
def replace (r : Record) (c : Component) : Record := { r with component := c, tokens := none }

def attach (addon : String) (r : Record) : Record :=
  if addon ∈ r.component.addons then r
  else r.replace { r.component with addons := r.component.addons ++ [addon] }

def detach (addon : String) (r : Record) : Record :=
  if addon ∈ r.component.addons then
    r.replace { r.component with addons := r.component.addons.filter (· ≠ addon) }
  else r

def detachAll (r : Record) : Record :=
  if r.component.addons = [] then r else r.replace { r.component with addons := [] }

/-- Forgets that a file contributed; this leaves what is searched as it is. -/
def withoutFile (filename : String) (r : Record) : Record :=
  { r with component := r.component.removeFormatsOf filename }

end Record

end SoftwareCatalog
