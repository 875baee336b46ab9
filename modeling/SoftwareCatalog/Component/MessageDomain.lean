import SoftwareCatalog.Component.Word

namespace SoftwareCatalog

/-- The system a component is translated with. -/
inductive MessageDomainKind where
  | unset | gettext | qt
deriving DecidableEq, Repr, Inhabited

namespace MessageDomainKind

def name : MessageDomainKind → String
  | .unset => "unknown"
  | .gettext => "gettext"
  | .qt => "qt"

def ofName? : String → Option MessageDomainKind
  | "gettext" => some .gettext
  | "qt" => some .qt
  | _ => none

instance : Word MessageDomainKind := ⟨name, ofName?⟩

theorem ofName?_name {k : MessageDomainKind} (h : k ≠ .unset) : ofName? k.name = some k := by
  cases k <;> simp_all [name, ofName?]

end MessageDomainKind

/-- Where the texts of a component are translated. -/
@[ext] structure MessageDomain where
  kind : MessageDomainKind
  id : String
deriving DecidableEq, Repr

end SoftwareCatalog
