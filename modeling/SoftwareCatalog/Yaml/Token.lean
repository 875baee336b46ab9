import SoftwareCatalog.Yaml.Scalar

namespace SoftwareCatalog.Yaml

/-- The pieces of a text that carry meaning. -/
inductive Token where
  | version (major minor : Nat)
  | handle (handle start : List Char)
  | documentStart | documentEnd | streamEnd
  | blockSequence | blockMapping | blockEnd
  | flowSequence | flowSequenceEnd | flowMapping | flowMappingEnd
  | blockEntry | flowEntry | key | value
  | alias (name : List Char)
  | anchor (name : List Char)
  | tag (handle suffix : List Char)
  | scalar (text : List Char) (plain : Bool)
  /-- The text is malformed from here on. -/
  | failure
deriving DecidableEq, Repr, Inhabited

/-- Reads the name of an anchor or an alias. -/
def readName (gs : List Glyph) : Except YamlError (List Char × List Glyph) :=
  let name := (gs.takeWhile fun g => isNameChar g.char).map Glyph.char
  let rest := gs.dropWhile fun g => isNameChar g.char
  if name = [] || !(gapAhead rest || nextIn ['?', ':', ',', ']', '}', '%', '@', '`'] rest) then
    .error .malformed
  else .ok (name, rest)

/-- The octet behind a percent sign. -/
def octet? : List Glyph → Option Nat
  | p :: a :: b :: _ => if p.char = '%' then Text.readNat 16 [a.char, b.char] else none
  | _ => none

/-- The number of octets of the character that an octet begins. -/
def octetCount? (n : Nat) : Option Nat :=
  if n < 0x80 then some 1
  else if 0xC0 ≤ n && n < 0xE0 then some 2
  else if 0xE0 ≤ n && n < 0xF0 then some 3
  else if 0xF0 ≤ n && n < 0xF8 then some 4
  else none

/-- The character written in escaped octets here, and their number. -/
def octetChar? (gs : List Glyph) : Option (Char × Nat) := do
  let count ← octetCount? (← octet? gs)
  let octets ← (List.range count).mapM fun i => octet? (gs.drop (3 * i))
  if octets.tail.all fun n => 0x80 ≤ n && n < 0xC0 then
    let text := String.fromUTF8? ⟨(octets.map Nat.toUInt8).toArray⟩
    return ((text.bind fun t => t.toList.head?).getD '\uFFFD', count)
  else none

def isUriChar (verbatim : Bool) (c : Char) : Bool :=
  isNameChar c || ";/?:@&=+$.!~*'()".toList.contains c || (verbatim && ",[]".toList.contains c)

/-- Reads the characters of a tag; brackets and commas count in verbatim ones only. -/
def readUri (verbatim : Bool) (gs : List Glyph) : Except YamlError (List Char × List Glyph) :=
  match gs with
  | [] => .ok ([], [])
  | g :: r =>
    if g.char = '%' then
      match octetChar? (g :: r) with
      | some (c, count) => (readUri verbatim (r.drop (3 * count - 1))).map fun p => (c :: p.1, p.2)
      | none => .error .malformed
    else if isUriChar verbatim g.char then (readUri verbatim r).map fun p => (g.char :: p.1, p.2)
    else .ok ([], g :: r)
termination_by gs.length
decreasing_by all_goals simp only [List.length_cons, List.length_drop]; omega

/-- Reads a handle of tags from behind its exclamation mark on. -/
def readHandle (gs : List Glyph) : List Char × List Glyph :=
  let name := (gs.takeWhile fun g => isNameChar g.char).map Glyph.char
  match gs.dropWhile fun g => isNameChar g.char with
  | g :: r => if g.char = '!' then ('!' :: name ++ ['!'], r) else ('!' :: name, g :: r)
  | [] => ('!' :: name, [])

/-- Reads a tag from behind its exclamation mark on: verbatim in angle brackets, with a handle, or
with the primary one. A tag that is only the mark has no handle. -/
def readTag (flow : Bool) (gs : List Glyph) : Except YamlError (Token × List Glyph) := do
  let (token, rest) ← if nextIn ['<'] gs then do
      match ← readUri true gs.tail with
      | (_ :: _, []) | ([], _) => throw .malformed
      | (uri, g :: r) => if g.char = '>' then pure (Token.tag [] uri, r) else throw .malformed
    else do
      let (handle, r) := readHandle gs
      let (uri, r) ← readUri false r
      if 1 < handle.length && handle.getLast? = some '!' then
        if uri = [] then throw .malformed else pure (Token.tag handle uri, r)
      else
        match handle.tail ++ uri with
        | [] => pure (Token.tag [] ['!'], r)
        | suffix => pure (Token.tag ['!'] suffix, r)
  if gapAhead rest || (flow && nextIn [','] rest) then return (token, rest) else throw .malformed

/-- Reads a part of a version, of nine digits at most. -/
def readVersionPart (gs : List Glyph) : Except YamlError (Nat × List Glyph) :=
  let digits := (gs.takeWhile fun g => g.char.isDigit).map Glyph.char
  match Text.readNat 10 digits with
  | some n =>
    if 9 < digits.length then .error .malformed
    else .ok (n, gs.dropWhile fun g => g.char.isDigit)
  | none => .error .malformed

/-- Reads a directive from behind its percent sign on. -/
def readDirective (gs : List Glyph) : Except YamlError (Token × List Glyph) := do
  let name := (gs.takeWhile fun g => isNameChar g.char).map Glyph.char
  let r := gs.dropWhile fun g => isNameChar g.char
  if !gapAhead r then throw .malformed
  let r := dropBlanks r
  let (token, r) ← if name = "YAML".toList then do
      let (major, r) ← readVersionPart r
      if !nextIn ['.'] r then throw .malformed
      let (minor, r) ← readVersionPart r.tail
      pure (Token.version major minor, r)
    else if name = "TAG".toList then do
      if !nextIn ['!'] r then throw .malformed
      let (handle, r) := readHandle r.tail
      if handle ≠ ['!'] && !(1 < handle.length && handle.getLast? = some '!') then throw .malformed
      if !(r.head?.any fun g => isBlank g.char) then throw .malformed
      let (start, r) ← readUri true (dropBlanks r)
      if start = [] || !gapAhead r then throw .malformed
      pure (Token.handle handle start, r)
    else throw .malformed
  return (token, ← endLine r)

/-- A place where a key may have begun, should a colon follow it on its line. -/
structure PendingKey where
  /-- How many tokens stand before it. -/
  number : Nat
  /-- Nothing but a key may stand there. -/
  required : Bool
  index : Nat
  line : Nat
  column : Nat
deriving DecidableEq, Repr

/-- What is known of the text read so far. -/
structure Scan where
  tokens : Array Token := #[]
  /-- The columns of the open block collections, the innermost first. -/
  blocks : List Nat := []
  key : Option PendingKey := none
  /-- The pending keys in front of the open brackets, the innermost first. -/
  outer : List (Option PendingKey) := []
  keyAllowed : Bool := true

namespace Scan

def inFlow (s : Scan) : Bool := s.outer ≠ []

def push (s : Scan) (t : Token) : Scan := { s with tokens := s.tokens.push t }

def allowKey (s : Scan) (allowed : Bool) : Scan := { s with keyAllowed := allowed }

/-- Gives up the pending key. -/
def removeKey (s : Scan) : Except YamlError Scan :=
  if s.key.any (·.required) then .error .malformed else .ok { s with key := none }

/-- Makes the place of `g` the pending key, where a key may stand. -/
def saveKey (s : Scan) (g : Glyph) : Except YamlError Scan :=
  if s.keyAllowed then
    s.removeKey.map fun s => { s with
      key := some {
        number := s.tokens.size, required := !s.inFlow && s.blocks.head? = some g.column
        index := g.index, line := g.line, column := g.column } }
  else .ok s

/-- A key ends on its line and within 1024 characters. -/
def keepKey (g : Glyph) (key : Option PendingKey) : Except YamlError (Option PendingKey) :=
  match key with
  | none => .ok none
  | some k =>
    if k.line < g.line || k.index + 1024 < g.index then
      if k.required then .error .malformed else .ok none
    else .ok (some k)

def dropStaleKeys (s : Scan) (g : Glyph) : Except YamlError Scan := do
  return { s with key := ← keepKey g s.key, outer := ← s.outer.mapM (keepKey g) }

/-- Closes the block collections for which `closes` holds of their columns, from the innermost on. -/
def closeBlocks (closes : Nat → Bool) (s : Scan) : Scan :=
  if s.inFlow then s
  else { s with
    tokens := s.tokens ++ Array.replicate (s.blocks.takeWhile closes).length Token.blockEnd
    blocks := s.blocks.dropWhile closes }

/-- Opens a block collection at a column, in front of token `number`, unless one is open there. -/
def openBlock (s : Scan) (column number : Nat) (t : Token) : Scan :=
  if s.inFlow || s.blocks.head?.any (column ≤ ·) then s
  else { s with tokens := s.tokens.insertIdxIfInBounds number t, blocks := column :: s.blocks }

def openHere (s : Scan) (g : Glyph) (t : Token) : Except YamlError Scan :=
  if s.inFlow then .ok s
  else if s.keyAllowed then .ok (s.openBlock g.column s.tokens.size t)
  else .error .malformed

def marker (s : Scan) (t : Token) : Except YamlError Scan := do
  return ((← (s.closeBlocks fun _ => true).removeKey).allowKey false).push t

def openBracket (s : Scan) (g : Glyph) (t : Token) : Except YamlError Scan := do
  let s ← s.saveKey g
  return ({ s with key := none, outer := s.key :: s.outer }.allowKey true).push t

def closeBracket (s : Scan) (t : Token) : Except YamlError Scan := do
  let s ← s.removeKey
  let s := match s.outer with
    | k :: ks => { s with key := k, outer := ks }
    | [] => s
  return (s.allowKey false).push t

/-- A colon turns the pending key into a key; without one the key is empty. -/
def value (s : Scan) (g : Glyph) : Except YamlError Scan := do
  match s.key with
  | some k =>
    let s := { s with tokens := s.tokens.insertIdxIfInBounds k.number .key, key := none }
    return ((s.openBlock k.column k.number .blockMapping).allowKey false).push .value
  | none =>
    let s ← s.openHere g .blockMapping
    return (s.allowKey (!s.inFlow)).push .value

/-- The next token and what it changes, where `g` is the first character of the rest. -/
def fetch (s : Scan) (g : Glyph) (gs : List Glyph) : Except YamlError (Scan × List Glyph) := do
  let text := g :: gs
  let s := (← s.dropStaleKeys g).closeBlocks (g.column < ·)
  let c := g.char
  if g.column = 0 && c = '%' then
    let s ← (s.closeBlocks fun _ => true).removeKey
    let (token, r) ← readDirective gs
    return ((s.allowKey false).push token, r)
  else if isMarker '-' text then return (← s.marker .documentStart, text.drop 3)
  else if isMarker '.' text then return (← s.marker .documentEnd, text.drop 3)
  else if c = '[' then return (← s.openBracket g .flowSequence, gs)
  else if c = '\x7b' then return (← s.openBracket g .flowMapping, gs)
  else if c = ']' then return (← s.closeBracket .flowSequenceEnd, gs)
  else if c = '\x7d' then return (← s.closeBracket .flowMappingEnd, gs)
  else if c = ',' then return (((← s.removeKey).allowKey true).push .flowEntry, gs)
  else if c = '-' && gapAhead gs then
    let s ← (← s.openHere g .blockSequence).removeKey
    return ((s.allowKey true).push .blockEntry, gs)
  else if c = '?' && (s.inFlow || gapAhead gs) then
    let s ← (← s.openHere g .blockMapping).removeKey
    return ((s.allowKey (!s.inFlow)).push .key, gs)
  else if c = ':' && (s.inFlow || gapAhead gs) then return (← s.value g, gs)
  else if c = '*' then
    let s ← s.saveKey g
    let (name, r) ← readName gs
    return ((s.allowKey false).push (.alias name), r)
  else if c = '&' then
    let s ← s.saveKey g
    let (name, r) ← readName gs
    return ((s.allowKey false).push (.anchor name), r)
  else if c = '!' then
    let s ← s.saveKey g
    let (token, r) ← readTag s.inFlow gs
    return ((s.allowKey false).push token, r)
  else if (c = '|' || c = '>') && !s.inFlow then
    let s ← s.removeKey
    let (t, r) ← readBlock (c = '|') s.blocks.head? gs
    return ((s.allowKey true).push (.scalar t false), r)
  else if c = '\'' || c = '"' then
    let s ← s.saveKey g
    let (t, r) ← if c = '"' then readDouble {} gs else readSingle {} gs
    return ((s.allowKey false).push (.scalar t false), r)
  else if (isGap c || "-?:,[]\x7b\x7d#&*!|>'\"%@`".toList.contains c) &&
      !(c = '-' && !gs.head?.any fun h => isBlank h.char) &&
      !((c = '?' || c = ':') && !s.inFlow && !gapAhead gs) then
    throw .malformed
  else
    let s ← s.saveKey g
    let p ← readPlain s.inFlow ((s.blocks.head?.map (· + 1)).getD 0) {} text
    return ((s.allowKey p.broken).push (.scalar p.text true), p.rest)

/-- What the end of the text adds. -/
def finish (s : Scan) : Except YamlError Scan := do
  return (← (s.closeBlocks fun _ => true).removeKey).push .streamEnd

end Scan

/-- Drops blanks, comments and breaks in front of a token. A key may stand behind a break, outside
brackets. Tabs do not count as blanks where a key may stand. -/
def skipGap (flow keyAllowed inComment : Bool) : List Glyph → Bool × List Glyph
  | [] => (keyAllowed, [])
  | g :: gs =>
    if isBreak g.char then skipGap flow (keyAllowed || !flow) false gs
    else if inComment then skipGap flow keyAllowed true gs
    else if g.char = ' ' || (g.char = '\t' && (flow || !keyAllowed)) then
      skipGap flow keyAllowed false gs
    else if g.char = '#' then skipGap flow keyAllowed true gs
    else (keyAllowed, g :: gs)

/-- Up to `fuel` further tokens. -/
def scanFrom : Nat → Scan → List Glyph → Scan
  | 0, s, _ => s.push .failure
  | fuel + 1, s, gs =>
    match skipGap s.inFlow s.keyAllowed false gs with
    | (_, []) =>
      match s.finish with
      | .ok t => t
      | .error _ => s.push .failure
    | (allowed, g :: r) =>
      match (s.allowKey allowed).fetch g r with
      | .ok (t, rest) => scanFrom fuel t rest
      | .error _ => s.push .failure

/-- The tokens of a text. Each takes a character, and the end of the text one more step. -/
def tokens (text : List Char) : List Token :=
  if text.all isAllowed then
    let gs := glyphs text
    (scanFrom (gs.length + 1) {} gs).tokens.toList
  else [.failure]

end SoftwareCatalog.Yaml
