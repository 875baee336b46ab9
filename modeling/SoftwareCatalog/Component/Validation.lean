import SoftwareCatalog.Component.Basic

namespace SoftwareCatalog

inductive ProblemKind where
  | tagMissing | duplicateData | markupInvalid | vetoed
deriving DecidableEq, Repr

def ProblemKind.name : ProblemKind → String
  | .tagMissing => "tag-missing"
  | .duplicateData => "duplicate-data"
  | .markupInvalid => "markup-invalid"
  | .vetoed => "vetoed"

/-- What a validation finds fault with. -/
structure Problem where
  kind : ProblemKind
  message : String
deriving DecidableEq, Repr

def Problem.text (p : Problem) : String := p.kind.name ++ ": " ++ p.message

/-- How severe a validation is; a relaxed one reports duplicates only. -/
structure Severity where
  strict : Bool
  relaxed : Bool
deriving DecidableEq, Repr

namespace Component

def duplicateProblems (c : Component) : List Problem :=
  (c.faults.members.filter (·.isDuplicate)).map fun f => ⟨.duplicateData, f.description⟩

def markupProblems (c : Component) : List Problem :=
  (c.faults.members.filter (!·.isDuplicate)).map fun f => ⟨.markupInvalid, f.description⟩

def missing (tag : String) : Problem := ⟨.tagMissing, "<" ++ tag ++ "> is not present"⟩

def missingTags (c : Component) : List Problem :=
  (if (c.names.localized none).isNone then [missing "name"] else []) ++
    if (c.comments.localized none).isNone && c.kind ≠ .generic then [missing "summary"] else []

def strictProblems (c : Component) : List Problem :=
  (if c.metadataLicense.isNone then [missing "metadata_license"] else []) ++
    c.vetoes.map fun v => ⟨.vetoed, v⟩

def problems (severity : Severity) (c : Component) : List Problem :=
  if severity.relaxed then c.duplicateProblems
  else
    c.duplicateProblems ++ c.markupProblems ++ c.missingTags ++
      if severity.strict then c.strictProblems else []

end Component

end SoftwareCatalog
