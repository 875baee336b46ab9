import SoftwareCatalog.Text.Fields

namespace SoftwareCatalog

/-- One step of a path. -/
inductive PathPart where
  | root | current | parent | name (text : String)
deriving DecidableEq, Repr

namespace PathPart

def rank : PathPart → Nat
  | .root => 0
  | .current => 1
  | .parent => 2
  | .name _ => 3

def text : PathPart → String
  | .name t => t
  | _ => ""

def before (a b : PathPart) : Bool := a.rank < b.rank || (a.rank == b.rank && a.text < b.text)

end PathPart

namespace Path

def partOf (field : String) : Option PathPart :=
  if field = "" || field = "." then none
  else if field = ".." then some .parent
  else some (.name field)

/-- The steps of a path. Repeated separators count once, and a dot counts only as the first step. -/
def parts (path : String) : List PathPart :=
  let fields := Text.fields '/' path
  let head := if Text.startsWith path "/" then [.root]
    else if fields.head? = some "." then [.current] else []
  head ++ fields.filterMap partOf

/-- Whether two texts write the same path. -/
def same (a b : String) : Bool := parts a == parts b

/-- The steps of the directory that a path lies in. -/
def parentParts (path : String) : Option (List PathPart) :=
  match (parts path).getLast? with
  | none | some .root => none
  | some _ => some (parts path).dropLast

/-- The name that a path ends in. -/
def fileName (path : String) : Option String :=
  match (parts path).getLast? with
  | some (.name t) => some t
  | _ => none

/-- Whether a path is `base` or lies below it. -/
def isWithin (base path : String) : Bool := (parts base).isPrefixOf (parts path)

def partsBefore : List PathPart → List PathPart → Bool
  | [], _ => true
  | _ :: _, [] => false
  | a :: as, b :: bs => a.before b || (a == b && partsBefore as bs)

/-- Paths are ordered step by step. -/
def sorted (paths : List String) : List String :=
  paths.mergeSort fun a b => partsBefore (parts a) (parts b)

/-- The path of an entry of a directory. -/
def join (base name : String) : String :=
  if base = "" || Text.endsWith base "/" then base ++ name else base ++ "/" ++ name

end Path

end SoftwareCatalog
