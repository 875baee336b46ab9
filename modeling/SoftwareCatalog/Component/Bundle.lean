import SoftwareCatalog.Component.Kind

namespace SoftwareCatalog

/-- A package that delivers a component. -/
@[ext] structure Bundle where
  kind : BundleKind
  id : String
  runtime : Option String
  sdk : Option String
deriving DecidableEq, Repr

def Bundle.same (a b : Bundle) : Bool := a.kind == b.kind && a.id == b.id

end SoftwareCatalog
