import SoftwareCatalog.Component.Locale
import SoftwareCatalog.Component.Word

namespace SoftwareCatalog

/-- What an agreement is about. -/
inductive AgreementKind where
  | unset | generic | eula | privacy
deriving DecidableEq, Repr, Inhabited

namespace AgreementKind

def name : AgreementKind → String
  | .unset => "unknown"
  | .generic => "generic"
  | .eula => "eula"
  | .privacy => "privacy"

def ofName? : String → Option AgreementKind
  | "generic" => some .generic
  | "eula" => some .eula
  | "privacy" => some .privacy
  | _ => none

instance : Word AgreementKind := ⟨name, ofName?⟩

theorem ofName?_name {k : AgreementKind} (h : k ≠ .unset) : ofName? k.name = some k := by
  cases k <;> simp_all [name, ofName?]

end AgreementKind

@[ext] structure AgreementSection where
  kind : Option String
  name : LocaleMap
  description : LocaleMap
deriving DecidableEq

/-- An agreement that users accept. -/
@[ext] structure Agreement where
  kind : AgreementKind
  versionId : Option String
  sections : List AgreementSection
deriving DecidableEq

def Agreement.same (a b : Agreement) : Bool := a.kind == b.kind && a.versionId == b.versionId

end SoftwareCatalog
