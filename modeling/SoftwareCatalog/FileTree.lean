import SoftwareCatalog.Error
import SoftwareCatalog.Path

namespace SoftwareCatalog

inductive FileNode where
  | file (bytes : ByteArray)
  | directory

/-- The files below a working directory, each at the names that lead to it. -/
structure FileTree where
  nodes : List (List String × FileNode) := []

namespace FileTree

def get? (t : FileTree) (place : List String) : Option FileNode :=
  if place = [] then some .directory else t.nodes.lookup place

def put (t : FileTree) (place : List String) (node : FileNode) : FileTree :=
  ⟨t.nodes.filter (·.1 != place) ++ [(place, node)]⟩

/-- Adds the directory at a place unless something is there. -/
def ensure (t : FileTree) (place : List String) : FileTree :=
  if (t.get? place).isSome then t else t.put place .directory

/-- Adds all directories on the way to a place, and that place too. -/
def ensureAll (t : FileTree) (place : List String) : FileTree :=
  (List.range place.length).foldl (fun t n => t.ensure (place.take (n + 1))) t

/-- The place that a step leads to. The working directory has no parent here. -/
def step (t : FileTree) (place : List String) (part : PathPart) : Except FileError (List String) :=
  match t.get? place with
  | none => .error .notFound
  | some (.file _) => .error .notADirectory
  | some .directory =>
    match part with
    | .name n => .ok (place ++ [n])
    | .current => .ok place
    | .parent => if place = [] then .error .notFound else .ok place.dropLast
    | .root => .error .notFound

/-- The steps from the working directory; an absolute path can only name that directory itself. -/
def relative (path : String) : Option (List PathPart) :=
  match Path.parts path with
  | .root :: .name "proc" :: .name "self" :: .name "cwd" :: rest => some rest
  | .root :: _ => none
  | [] => none
  | parts => some parts

/-- The place that a path leads to, whether or not there is something. -/
def locate (t : FileTree) (path : String) : Except FileError (List String) :=
  match relative path with
  | none => .error .notFound
  | some parts => parts.foldlM t.step []

/-- Only a directory has a path that ends in a separator or a dot. -/
def namesDirectory (path : String) : Bool := Text.endsWith path "/" || Text.endsWith path "/."

def node (t : FileTree) (path : String) : Except FileError FileNode := do
  let place ← t.locate path
  match t.get? place with
  | none => .error .notFound
  | some .directory => .ok .directory
  | some (.file bytes) =>
    if namesDirectory path then .error .notADirectory else .ok (.file bytes)

def isDirectory (t : FileTree) (path : String) : Bool :=
  match t.node path with
  | .ok .directory => true
  | _ => false

def isFile (t : FileTree) (path : String) : Bool :=
  match t.node path with
  | .ok (.file _) => true
  | _ => false

def read (t : FileTree) (path : String) : Except FileError ByteArray :=
  match t.node path with
  | .ok (.file bytes) => .ok bytes
  | .ok .directory => .error .isADirectory
  | .error e => .error e

/-- The names in a directory in the order of code points. -/
def list (t : FileTree) (path : String) : List String :=
  match t.locate path with
  | .error _ => []
  | .ok place =>
    (t.nodes.filterMap fun e =>
      if e.1.dropLast = place then e.1.getLast? else none).mergeSort (fun a b => decide (a ≤ b))

/-- The paths below a directory, down to `depth` levels, each directory before its entries. -/
def walk (t : FileTree) : Nat → String → List String
  | 0, _ => []
  | depth + 1, dir =>
    (t.list dir).flatMap fun name =>
      let path := Path.join dir name
      path :: if t.isDirectory path then t.walk depth path else []

/-- The place that a path names, whatever lies on the way to it. -/
def named (path : String) : List String :=
  ((relative path).getD []).foldl (fun place part =>
    match part with
    | .name n => place ++ [n]
    | .parent => place.dropLast
    | _ => place) []

/-- Writes a file together with the directories that it lies in. -/
def write (t : FileTree) (path : String) (bytes : ByteArray) : FileTree :=
  (t.ensureAll (named path).dropLast).put (named path) (.file bytes)

def mkdir (t : FileTree) (path : String) : FileTree := t.ensureAll (named path)

/-- Deletes a file, or a directory with all that is in it. -/
def delete (t : FileTree) (path : String) : FileTree :=
  ⟨t.nodes.filter fun e => !(named path).isPrefixOf e.1⟩

end FileTree

end SoftwareCatalog
