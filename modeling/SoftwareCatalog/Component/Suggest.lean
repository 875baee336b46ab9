import SoftwareCatalog.Component.Word

namespace SoftwareCatalog

/-- Who suggests related components. -/
inductive SuggestKind where
  | unset | project | heuristic
deriving DecidableEq, Repr, Inhabited

namespace SuggestKind

def name : SuggestKind → String
  | .unset => "unknown"
  | .project => "upstream"
  | .heuristic => "heuristic"

def ofName? : String → Option SuggestKind
  | "upstream" => some .project
  | "heuristic" => some .heuristic
  | _ => none

instance : Word SuggestKind := ⟨name, ofName?⟩

theorem ofName?_name {k : SuggestKind} (h : k ≠ .unset) : ofName? k.name = some k := by
  cases k <;> simp_all [name, ofName?]

end SuggestKind

/-- Components that users may also want. -/
@[ext] structure Suggest where
  kind : SuggestKind
  ids : List String
deriving DecidableEq, Repr

end SoftwareCatalog
