import SoftwareCatalog.Yaml.Token

namespace SoftwareCatalog.Yaml

/-- The tag of a node and the number under which aliases find it. -/
structure Properties where
  anchor : Option Nat := none
  tag : Option String := none
deriving DecidableEq, Repr

inductive Node where
  | scalar (props : Properties) (text : String) (plain : Bool)
  | sequence (props : Properties) (items : List Node)
  | mapping (props : Properties) (entries : List (Node × Node))
  | alias (target : Nat)
deriving Inhabited

namespace Node

/-- An absent node counts as an empty scalar. -/
def empty : Node := .scalar {} "" true

end Node

/-- What is left of the tokens, and the names that a document has given. -/
structure Reading where
  tokens : List Token
  /-- What the handles of tags stand for. -/
  handles : List (List Char × List Char) := []
  anchors : List (List Char × Nat) := []

abbrev Reader := StateT Reading (Except YamlError)

namespace Reader

def malformed {α : Type} : Reader α := throw .malformed

/-- The next token; there is none where the text is malformed. -/
def peek : Reader Token := do
  match (← get).tokens with
  | [] | .failure :: _ => malformed
  | t :: _ => return t

def skip : Reader Unit := modify fun s => { s with tokens := s.tokens.tail }

def next : Reader Token := do
  let t ← peek
  skip
  return t

/-- Numbers an anchor by the names given before. A name that is given again leaves their count as
it is, so that the next new name gets the same number. -/
def register (name : List Char) : Reader Nat := do
  let s ← get
  let number := s.anchors.length
  set { s with anchors := (name, number) :: s.anchors.filter (·.1 ≠ name) }
  return number

def target (name : List Char) : Reader Nat := do
  match (← get).anchors.lookup name with
  | some number => return number
  | none => malformed

/-- The tag that a handle and a suffix stand for. -/
def expandTag (handle suffix : List Char) : Reader String := do
  if handle = [] then return String.ofList suffix
  match (← get).handles.lookup handle with
  | some start => return String.ofList (start ++ suffix)
  | none => malformed

/-- A tag, if there is one here. -/
def optionalTag : Reader (Option String) := do
  match ← peek with
  | .tag handle suffix =>
    skip
    return some (← expandTag handle suffix)
  | _ => return none

/-- The name of an anchor, if there is one here. -/
def optionalAnchor : Reader (Option (List Char)) := do
  match ← peek with
  | .anchor name =>
    skip
    return some name
  | _ => return none

/-- The anchor and the tag of a node, in either order. -/
def properties : Reader Properties := do
  let before ← optionalAnchor
  let tag ← optionalTag
  let name ← if before.isSome || tag.isNone then pure before else optionalAnchor
  match name with
  | some n => return ⟨some (← register n), tag⟩
  | none => return ⟨none, tag⟩

/-- Whether the next token is one of those that leave a node out. -/
def atAny (ts : List Token) : Reader Bool := return ts.contains (← peek)

mutual

/-- Reads a node with at most `fuel` steps. Block collections may not stand in brackets; a sequence
that is not indented may stand inside a block mapping. -/
def node (fuel : Nat) (block unindented : Bool) : Reader Node := do
  match fuel with
  | 0 => malformed
  | fuel + 1 =>
    match ← peek with
    | .alias name =>
      skip
      return .alias (← target name)
    | _ =>
      let props ← properties
      match ← peek with
      | .scalar text plain =>
        skip
        let bare := plain && props.tag.isNone || props.tag == some "!"
        let props := if bare then { props with tag := none } else props
        return .scalar props (String.ofList text) plain
      | .flowSequence =>
        skip
        return .sequence props (← flowItems fuel true)
      | .flowMapping =>
        skip
        return .mapping props (← flowEntries fuel true)
      | t =>
        if t = .blockEntry && unindented then return .sequence props (← unindentedItems fuel)
        else if t = .blockSequence && block then
          skip
          return .sequence props (← blockItems fuel)
        else if t = .blockMapping && block then
          skip
          return .mapping props (← blockEntries fuel)
        else if props.anchor.isSome || props.tag.isSome then return .scalar props "" true
        else malformed

/-- A node of a block collection, unless one of the tokens leaves it out. -/
def blockPart (fuel : Nat) (unindented : Bool) (out : List Token) : Reader Node := do
  match fuel with
  | 0 => malformed
  | fuel + 1 => if ← atAny out then return .empty else node fuel true unindented

/-- A node in brackets, unless one of the tokens leaves it out. -/
def flowPart (fuel : Nat) (out : List Token) : Reader Node := do
  match fuel with
  | 0 => malformed
  | fuel + 1 => if ← atAny out then return .empty else node fuel false false

def blockItems (fuel : Nat) : Reader (List Node) := do
  match fuel with
  | 0 => malformed
  | fuel + 1 =>
    match ← next with
    | .blockEntry =>
      let item ← blockPart fuel false [.blockEntry, .blockEnd]
      return item :: (← blockItems fuel)
    | .blockEnd => return []
    | _ => malformed

def unindentedItems (fuel : Nat) : Reader (List Node) := do
  match fuel with
  | 0 => malformed
  | fuel + 1 =>
    if (← peek) = .blockEntry then
      skip
      let item ← blockPart fuel false [.blockEntry, .key, .value, .blockEnd]
      return item :: (← unindentedItems fuel)
    else return []

def blockEntries (fuel : Nat) : Reader (List (Node × Node)) := do
  match fuel with
  | 0 => malformed
  | fuel + 1 =>
    match ← next with
    | .key =>
      let key ← blockPart fuel true [.key, .value, .blockEnd]
      if (← peek) = .value then
        skip
        let value ← blockPart fuel true [.key, .value, .blockEnd]
        return (key, value) :: (← blockEntries fuel)
      else return (key, .empty) :: (← blockEntries fuel)
    | .blockEnd => return []
    | _ => malformed

/-- The items up to the closing bracket; between two of them stands a comma. -/
def flowItems (fuel : Nat) (first : Bool) : Reader (List Node) := do
  match fuel with
  | 0 => malformed
  | fuel + 1 =>
    if (← peek) = .flowSequenceEnd then
      skip
      return []
    if !first then
      if (← next) ≠ .flowEntry then malformed
    match ← peek with
    | .flowSequenceEnd =>
      skip
      return []
    | .key =>
      skip
      let entry ← flowPair fuel
      return .mapping {} [entry] :: (← flowItems fuel false)
    | _ =>
      let item ← node fuel false false
      return item :: (← flowItems fuel false)

/-- The single pair that an item of a sequence may be. The token that leaves the key out is lost. -/
def flowPair (fuel : Nat) : Reader (Node × Node) := do
  match fuel with
  | 0 => malformed
  | fuel + 1 =>
    let key ← if ← atAny [.value, .flowEntry, .flowSequenceEnd] then do
        skip
        pure .empty
      else node fuel false false
    if (← peek) = .value then
      skip
      return (key, ← flowPart fuel [.flowEntry, .flowSequenceEnd])
    else return (key, .empty)

/-- The entries up to the closing brace; between two of them stands a comma. -/
def flowEntries (fuel : Nat) (first : Bool) : Reader (List (Node × Node)) := do
  match fuel with
  | 0 => malformed
  | fuel + 1 =>
    if (← peek) = .flowMappingEnd then
      skip
      return []
    if !first then
      if (← next) ≠ .flowEntry then malformed
    match ← peek with
    | .flowMappingEnd =>
      skip
      return []
    | .key =>
      skip
      let key ← flowPart fuel [.value, .flowEntry, .flowMappingEnd]
      if (← peek) = .value then
        skip
        let value ← flowPart fuel [.flowEntry, .flowMappingEnd]
        return (key, value) :: (← flowEntries fuel false)
      else return (key, .empty) :: (← flowEntries fuel false)
    | _ =>
      let key ← node fuel false false
      return (key, .empty) :: (← flowEntries fuel false)

end

/-- The handles that need no directive. -/
def standardHandles : List (List Char × List Char) := [
  (['!'], ['!']), (['!', '!'], "tag:yaml.org,2002:".toList)]

/-- The directives in front of a document: one version at most and each handle once. -/
def directives (fuel : Nat) (version : Bool) (handles : List (List Char × List Char)) :
    Reader (List (List Char × List Char)) := do
  match fuel with
  | 0 => malformed
  | fuel + 1 =>
    match ← peek with
    | .version major minor =>
      if version || major ≠ 1 || (minor ≠ 1 && minor ≠ 2) then malformed
      skip
      directives fuel true handles
    | .handle handle start =>
      if (handles.lookup handle).isSome then malformed
      skip
      directives fuel version ((handle, start) :: handles)
    | _ => return handles ++ standardHandles

def dropEndMarkers (ts : List Token) : List Token := ts.dropWhile (· = .documentEnd)

def startsDocument (t : Token) : Bool :=
  match t with
  | .version .. | .handle .. | .documentStart | .streamEnd => true
  | _ => false

/-- Reads the next document, if there is one. Only the first may begin without a marker. -/
def document (first : Bool) : Reader (Option Node) := do
  let fuel := 4 * (← get).tokens.length + 4
  if !first then modify fun s => { s with tokens := dropEndMarkers s.tokens }
  modify fun s => { s with anchors := [] }
  let t ← peek
  if t = .streamEnd then return none
  let content ←
    if first && !startsDocument t then do
      modify fun s => { s with handles := standardHandles }
      node fuel true false
    else do
      let handles ← directives fuel false []
      modify fun s => { s with handles }
      if (← next) ≠ .documentStart then malformed
      let t ← peek
      if startsDocument t || t = .documentEnd then pure .empty else node fuel true false
  if (← peek) = .documentEnd then skip
  return some content

end Reader

/-- The documents up to the first fault, and whether there is none. -/
structure Documents (α : Type) where
  items : List α
  sound : Bool

/-- Up to `fuel` further documents. -/
def documentsFrom : Nat → Bool → Reading → Documents Node
  | 0, _, _ => ⟨[], false⟩
  | fuel + 1, first, s =>
    match (Reader.document first).run s with
    | .error _ => ⟨[], false⟩
    | .ok (none, _) => ⟨[], true⟩
    | .ok (some n, t) =>
      let more := documentsFrom fuel false t
      { more with items := n :: more.items }

/-- The documents of a text; each takes a token. -/
def documents (text : List Char) : Documents Node :=
  let ts := tokens text
  documentsFrom (ts.length + 1) true { tokens := ts }

end SoftwareCatalog.Yaml
