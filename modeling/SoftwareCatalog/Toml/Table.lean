import SoftwareCatalog.Error
import SoftwareCatalog.Text.Binary64

namespace SoftwareCatalog.Toml

/-- How a table came about: by its own header, as a parent in a header, or by a dotted key. -/
inductive TableKind where
  | explicit | implicit | dotted
deriving DecidableEq, Repr

mutual

inductive Value where
  | string (s : String)
  | int (n : Int)
  | float (x : Binary64)
  | bool (b : Bool)
  | moment (text : String)
  | array (items : List Value)
  /-- A table in braces, which nothing can be added to. -/
  | inline (t : Table)
  | table (t : Table)
  /-- The tables of repeated headers, the last one first. -/
  | tables (ts : List Table)

inductive Table where
  | mk (kind : TableKind) (entries : List (String × Value))

end

namespace Table

def kind : Table → TableKind
  | .mk kind _ => kind

def entries : Table → List (String × Value)
  | .mk _ entries => entries

def empty (kind : TableKind) : Table := .mk kind []

instance : Inhabited Table := ⟨empty .explicit⟩

def get? (t : Table) (key : String) : Option Value := t.entries.lookup key

/-- Puts a value at a key, in place of an earlier one. -/
def set (t : Table) (key : String) (v : Value) : Table :=
  .mk t.kind ((key, v) :: t.entries.filter (·.1 ≠ key))

/-- Changes the table at the end of a path. Tables on the way that are missing are made, of repeated
tables the last one counts, and a dotted path may not enter a table that has a header. -/
def modifyAt (isDotted : Bool) (f : Table → Except SettingsError Table) :
    List String → Table → Except SettingsError Table
  | [], t => f t
  | k :: ks, t =>
    match t.get? k with
    | none => do
      let child ← modifyAt isDotted f ks (empty (if isDotted then .dotted else .implicit))
      return t.set k (.table child)
    | some (.table c) =>
      if isDotted && c.kind = .explicit then .error .malformed
      else do return t.set k (.table (← modifyAt isDotted f ks c))
    | some (.tables (c :: cs)) => do return t.set k (.tables ((← modifyAt isDotted f ks c) :: cs))
    | some _ => .error .malformed

/-- Adds a value under a key that is not in use. -/
def addNew (key : String) (v : Value) (t : Table) : Except SettingsError Table :=
  if (t.get? key).isSome then .error .malformed else .ok (t.set key v)

/-- Adds a value under a dotted key. Tables of dotted keys and of headers do not mix. -/
def addAt (path : List String) (key : String) (v : Value) (t : Table) : Except SettingsError Table :=
  modifyAt true
    (fun u => if (u.kind = .dotted) = (path = []) then .error .malformed else addNew key v u) path t

/-- Opens the table of a header, which may have been made as a parent before. -/
def openTable (key : String) (t : Table) : Except SettingsError Table :=
  match t.get? key with
  | none => .ok (t.set key (.table (empty .explicit)))
  | some (.table c) =>
    if c.kind = .implicit then .ok (t.set key (.table (.mk .explicit c.entries)))
    else .error .malformed
  | some _ => .error .malformed

/-- Opens one more table of a repeated header. -/
def openNext (key : String) (t : Table) : Except SettingsError Table :=
  match t.get? key with
  | none => .ok (t.set key (.tables [empty .explicit]))
  | some (.tables ts) => .ok (t.set key (.tables (empty .explicit :: ts)))
  | some _ => .error .malformed

end Table

end SoftwareCatalog.Toml
