import SoftwareCatalog.Text.Binary64
import SoftwareCatalog.Text.Fields
import SoftwareCatalog.Yaml.Node

namespace SoftwareCatalog.Yaml

inductive Value where
  | null
  | bool (b : Bool)
  /-- A number of 64 bits, signed or not. -/
  | int (n : Int)
  | float (x : Binary64)
  | string (s : String)
  | sequence (items : List Value)
  | mapping (entries : List (Value × Value))
  | tagged (tag : String) (content : Value)
deriving Inhabited

namespace Value

/-- What a scalar without quotes may stand for besides text. -/
inductive Plain where
  | value (v : Value)
  /-- A number that is too wide for any value. -/
  | tooWide

/-- A sign, or none, and a number behind the mark of its radix. -/
def radixInt? (cs : List Char) : Option Int :=
  let read (negative : Bool) : List Char → Option Int
    | '0' :: 'x' :: ds => (Text.readNat 16 ds).map fun n => if negative then -(n : Int) else n
    | '0' :: 'o' :: ds => (Text.readNat 8 ds).map fun n => if negative then -(n : Int) else n
    | '0' :: 'b' :: ds => (Text.readNat 2 ds).map fun n => if negative then -(n : Int) else n
    | _ => none
  match cs with
  | '-' :: r => read true r
  | '+' :: r => read false r
  | r => read false r

def dropSign : List Char → List Char
  | '-' :: r | '+' :: r => r
  | r => r

/-- Digits behind a leading zero are no number. -/
def hasLeadingZero (cs : List Char) : Bool :=
  match dropSign cs with
  | '0' :: d :: ds => (d :: ds).all Char.isDigit
  | _ => false

def decimalInt? (cs : List Char) : Option Int :=
  if hasLeadingZero cs then none
  else
    match cs with
    | '-' :: r => (Text.readNat 10 r).map fun n => -(n : Int)
    | '+' :: r => (Text.readNat 10 r).map fun n => (n : Int)
    | r => (Text.readNat 10 r).map fun n => (n : Int)

/-- The number a scalar writes; those beyond 128 bits are left to be read otherwise. -/
def int? (cs : List Char) : Option Plain :=
  ((radixInt? cs).or (decimalInt? cs)).bind fun n =>
    if Text.fitsSigned 64 n || Text.fitsUnsigned 64 n then some (.value (.int n))
    else if Text.fitsSigned 128 n || Text.fitsUnsigned 128 n then some .tooWide
    else none

def infinities : List String := [".inf", ".Inf", ".INF"]

/-- The number a scalar writes with a point or an exponent, finite unless it is named. -/
def float? (s : String) : Option Binary64 :=
  if infinities.any fun i => s = i || s = "+" ++ i then some (.infinite false)
  else if infinities.any fun i => s = "-" ++ i then some (.infinite true)
  else if [".nan", ".NaN", ".NAN"].contains s then some .nan
  else (Binary64.decimal? s.toList).filter (·.isFinite)

def isNull (s : String) : Bool := ["null", "Null", "NULL", "~"].contains s

def bool? (s : String) : Option Bool :=
  if ["true", "True", "TRUE"].contains s then some true
  else if ["false", "False", "FALSE"].contains s then some false
  else none

/-- What a scalar without quotes stands for. -/
def ofPlain (s : String) : Plain :=
  if s = "" || isNull s then .value .null
  else
    match bool? s with
    | some b => .value (.bool b)
    | none =>
      match int? s.toList with
      | some p => p
      | none =>
        if hasLeadingZero s.toList then .value (.string s)
        else .value ((float? s).elim (.string s) .float)

def Plain.get : Plain → Except YamlError Value
  | .value v => .ok v
  | .tooWide => .error .malformed

def orMalformed {α : Type} (f : α → Value) : Option α → Except YamlError Value
  | some a => .ok (f a)
  | none => .error .malformed

/-- A scalar with a tag that is not its own: four standard tags demand their form, and all others
leave text. -/
def ofTagged (tag s : String) : Except YamlError Value :=
  match Text.dropStart? tag "tag:yaml.org,2002:" with
  | some "bool" => orMalformed .bool (bool? s)
  | some "int" => ((int? s.toList).elim (.error .malformed) Plain.get)
  | some "float" => orMalformed .float (float? s)
  | some "null" => if isNull s then .ok .null else .error .malformed
  | _ => .ok (.string s)

/-- A tag of the document's own, without its mark unless it is nothing else. -/
def ownTag? (props : Properties) : Option String :=
  props.tag.bind fun tag =>
    match tag.toList with
    | ['!'] => some tag
    | '!' :: cs => some (String.ofList cs)
    | _ => none

def ofScalar (props : Properties) (text : String) (plain : Bool) : Except YamlError Value :=
  let untagged := if plain then (ofPlain text).get else .ok (.string text)
  match ownTag? props, props.tag with
  | some _, _ => untagged
  | none, some tag => ofTagged tag text
  | none, none => untagged

def tag (props : Properties) (v : Value) : Value :=
  match ownTag? props with
  | some t => .tagged t v
  | none => v

mutual

/-- Equality, where the order of a mapping does not count. -/
def same : Value → Value → Bool
  | .null, .null => true
  | .bool a, .bool b => a == b
  | .int a, .int b => a == b
  | .float a, .float b => a == b
  | .string a, .string b => a == b
  | .sequence as, .sequence bs => sameItems as bs
  | .mapping as, .mapping bs => as.length == bs.length && sameEntries as bs
  | .tagged t a, .tagged u b => t == u && same a b
  | _, _ => false

def sameItems : List Value → List Value → Bool
  | [], [] => true
  | a :: as, b :: bs => same a b && sameItems as bs
  | _, _ => false

/-- Whether every entry of the first list is in the second one. -/
def sameEntries : List (Value × Value) → List (Value × Value) → Bool
  | [], _ => true
  | (k, v) :: es, fs => (fs.any fun f => same k f.1 && same v f.2) && sameEntries es fs

end

end Value

namespace Node

mutual

/-- The nodes with anchors, in the order in which they begin. -/
def anchored : Node → List (Nat × Node)
  | .scalar props text plain => props.anchor.toList.map fun a => (a, .scalar props text plain)
  | .sequence props items =>
    (props.anchor.toList.map fun a => (a, .sequence props items)) ++ anchoredItems items
  | .mapping props entries =>
    (props.anchor.toList.map fun a => (a, .mapping props entries)) ++ anchoredEntries entries
  | .alias _ => []

def anchoredItems : List Node → List (Nat × Node)
  | [] => []
  | n :: ns => anchored n ++ anchoredItems ns

def anchoredEntries : List (Node × Node) → List (Nat × Node)
  | [] => []
  | (k, v) :: es => anchored k ++ anchored v ++ anchoredEntries es

end

mutual

/-- A scalar or an alias is one event, a collection begins and ends. -/
def eventCount : Node → Nat
  | .scalar .. | .alias _ => 1
  | .sequence _ items => 2 + itemsEventCount items
  | .mapping _ entries => 2 + entriesEventCount entries

def itemsEventCount : List Node → Nat
  | [] => 0
  | n :: ns => eventCount n + itemsEventCount ns

def entriesEventCount : List (Node × Node) → Nat
  | [] => 0
  | (k, v) :: es => eventCount k + eventCount v + entriesEventCount es

end

/-- The node that an alias stands for, of several with its number the last, and how many more
aliases may be followed. -/
def follow (anchors : List (Nat × Node)) (n : Node) : StateT Nat (Except YamlError) Node := do
  match n with
  | .alias target =>
    match ← get with
    | 0 => throw .malformed
    | left + 1 =>
      set left
      match anchors.reverse.lookup target with
      | some m => return m
      | none => throw .malformed
  | n => return n

/-- Adds an entry to a mapping, where each key stands once. -/
def addEntry (es : List (Value × Value)) (k v : Value) : Except YamlError (List (Value × Value)) :=
  if es.any fun e => Value.same e.1 k then .error .malformed else .ok (es ++ [(k, v)])

/-- The value of a node, with collections nested at most `depth` deep. -/
def valueWithin (anchors : List (Nat × Node)) : Nat → Node → StateT Nat (Except YamlError) Value
  | depth, n => do
    match ← follow anchors n with
    | .scalar props text plain => return Value.tag props (← Value.ofScalar props text plain)
    | .alias _ => throw .malformed
    | .sequence props items =>
      match depth with
      | 0 => throw .malformed
      | depth + 1 => return Value.tag props (.sequence (← items.mapM (valueWithin anchors depth)))
    | .mapping props entries =>
      match depth with
      | 0 => throw .malformed
      | depth + 1 =>
        let es ← entries.foldlM (fun es e => do
          let k ← valueWithin anchors depth e.1
          let v ← valueWithin anchors depth e.2
          addEntry es k v) []
        return Value.tag props (.mapping es)

/-- The value of a document: collections nest up to 128 deep, and aliases are followed up to a
hundred times for each event. -/
def value (n : Node) : Except YamlError Value :=
  ((valueWithin n.anchored 128 n).run (n.eventCount * 100)).map (·.1)

end Node

/-- The values of documents up to the first that has none. -/
def Documents.values (d : Documents Node) : Documents Value :=
  match d with
  | ⟨[], sound⟩ => ⟨[], sound⟩
  | ⟨n :: ns, sound⟩ =>
    match n.value with
    | .error _ => ⟨[], false⟩
    | .ok v =>
      let more := Documents.values ⟨ns, sound⟩
      { more with items := v :: more.items }
termination_by d.items.length

/-- The values of the documents of a text. -/
def values (text : String) : Documents Value := (documents text.toList).values

namespace Value

def untagged : Value → Value
  | .tagged _ v => untagged v
  | v => v

/-- The value at a key of a mapping. -/
def get? (v : Value) (key : String) : Option Value :=
  match v.untagged with
  | .mapping es => (es.find? fun e => same e.1 (.string key)).map (·.2)
  | _ => none

def string? (v : Value) : Option String :=
  match v.untagged with
  | .string s => some s
  | _ => none

def truth? (v : Value) : Option Bool :=
  match v.untagged with
  | .bool b => some b
  | _ => none

def int64? (v : Value) : Option Int :=
  match v.untagged with
  | .int n => if n < (1 <<< 63 : Nat) then some n else none
  | _ => none

def nat64? (v : Value) : Option Nat :=
  match v.untagged with
  | .int n => if 0 ≤ n then some n.toNat else none
  | _ => none

def isNothing (v : Value) : Bool :=
  match v.untagged with
  | .null => true
  | _ => false

/-- The items of a sequence; other values have none. -/
def items (v : Value) : List Value :=
  match v.untagged with
  | .sequence vs => vs
  | _ => []

/-- The entries of a mapping whose keys are text; other values have none. -/
def fields (v : Value) : List (String × Value) :=
  match v.untagged with
  | .mapping es => es.filterMap fun e => e.1.string?.map fun k => (k, e.2)
  | _ => []

end Value

end SoftwareCatalog.Yaml
