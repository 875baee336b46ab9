import SoftwareCatalog.Error
import SoftwareCatalog.Text.Number
import SoftwareCatalog.Yaml.Glyph

namespace SoftwareCatalog.Yaml

/-- White space inside a scalar: blanks before the first break, and the breaks. An escaped break
counts for nothing, but what follows it is like behind a break. -/
structure Gap where
  blanks : List Char := []
  breaks : List Char := []
  escaped : Bool := false
deriving DecidableEq, Repr

namespace Gap

def isBroken (g : Gap) : Bool := g.escaped || g.breaks ≠ []

def isEmpty (g : Gap) : Bool := g.blanks = [] && !g.isBroken

/-- Blanks behind a break do not count. -/
def addBlank (g : Gap) (c : Char) : Gap :=
  if g.isBroken then g else { g with blanks := g.blanks ++ [c] }

def addBreak (g : Gap) (c : Char) : Gap := { g with breaks := g.breaks ++ [c] }

/-- What a gap contributes: a single line feed becomes a space, of several the first is dropped. -/
def text (g : Gap) : List Char :=
  if g.escaped then g.breaks
  else
    match g.breaks with
    | [] => g.blanks
    | ['\n'] => [' ']
    | '\n' :: cs => cs
    | cs => cs

end Gap

/-- The text of a plain scalar, whether breaks follow it, and the rest. -/
structure Plain where
  text : List Char
  broken : Bool
  rest : List Glyph

/-- Characters with a meaning inside brackets. -/
def flowMarks : List Char := [',', '[', ']', '{', '}']

/-- Whether a plain scalar ends in front of a character that follows a gap. -/
def endsBehindGap (flow : Bool) (indent : Nat) (gs : List Glyph) : Bool :=
  (!flow && gs.head?.any fun g => g.column < indent) || atMarker gs || nextIn ['#'] gs

/-- Reads a plain scalar, where `gap` holds the white space just read. -/
def readPlain (flow : Bool) (indent : Nat) (gap : Gap) : List Glyph → Except YamlError Plain
  | [] => .ok ⟨[], gap.isBroken, []⟩
  | g :: gs =>
    let stop : Plain := ⟨[], gap.isBroken, g :: gs⟩
    if isBlank g.char then
      if gap.isBroken && g.column < indent && g.char = '\t' then .error .malformed
      else readPlain flow indent (gap.addBlank g.char) gs
    else if isBreak g.char then readPlain flow indent (gap.addBreak g.char) gs
    else if !gap.isEmpty && endsBehindGap flow indent (g :: gs) then .ok stop
    else if flow && g.char = ':' && nextIn ('?' :: flowMarks) gs then .error .malformed
    else if (g.char = ':' && gapAhead gs) || (flow && flowMarks.contains g.char) then .ok stop
    else (readPlain flow indent {} gs).map fun p => { p with text := gap.text ++ g.char :: p.text }

/-- Reads a scalar between single quotes, from behind the first one on. -/
def readSingle (gap : Gap) : List Glyph → Except YamlError (List Char × List Glyph)
  | [] => .error .malformed
  | g :: gs =>
    if atMarker (g :: gs) then .error .malformed
    else if isBlank g.char then readSingle (gap.addBlank g.char) gs
    else if isBreak g.char then readSingle (gap.addBreak g.char) gs
    else if g.char = '\'' then
      match gs with
      | q :: r =>
        if q.char = '\'' then
          (readSingle {} r).map fun p => (gap.text ++ '\'' :: p.1, p.2)
        else .ok (gap.text, q :: r)
      | [] => .ok (gap.text, [])
    else (readSingle {} gs).map fun p => (gap.text ++ g.char :: p.1, p.2)

/-- The character that an escape of one letter stands for. -/
def escaped? : Char → Option Char
  | '0' => some '\x00'
  | 'a' => some '\x07'
  | 'b' => some '\x08'
  | 't' | '\t' => some '\t'
  | 'n' => some '\n'
  | 'v' => some '\x0b'
  | 'f' => some '\x0c'
  | 'r' => some '\r'
  | 'e' => some '\x1b'
  | ' ' => some ' '
  | '"' => some '"'
  | '/' => some '/'
  | '\\' => some '\\'
  | 'N' => some '\u0085'
  | '_' => some '\u00a0'
  | 'L' => some '\u2028'
  | 'P' => some '\u2029'
  | _ => none

/-- The number of hexadecimal digits behind an escape. -/
def escapeLength? : Char → Option Nat
  | 'x' => some 2
  | 'u' => some 4
  | 'U' => some 8
  | _ => none

/-- The character with a hexadecimal number. -/
def hexChar? (digits : List Char) : Option Char :=
  (Text.readNat 16 digits).bind fun n => if n.isValidChar then some (Char.ofNat n) else none

/-- Reads a scalar between double quotes, from behind the first one on. -/
def readDouble (gap : Gap) : List Glyph → Except YamlError (List Char × List Glyph)
  | [] => .error .malformed
  | g :: gs =>
    if atMarker (g :: gs) then .error .malformed
    else if isBlank g.char then readDouble (gap.addBlank g.char) gs
    else if isBreak g.char then readDouble (gap.addBreak g.char) gs
    else if g.char = '"' then .ok (gap.text, gs)
    else if g.char = '\\' then
      match gs with
      | [] => .error .malformed
      | e :: r =>
        if isBreak e.char then
          (readDouble { escaped := true } r).map fun p => (gap.text ++ p.1, p.2)
        else
          match escapeLength? e.char with
          | some n =>
            if r.length < n then .error .malformed
            else
              match hexChar? ((r.take n).map Glyph.char) with
              | some c => (readDouble {} (r.drop n)).map fun p => (gap.text ++ c :: p.1, p.2)
              | none => .error .malformed
          | none =>
            match escaped? e.char with
            | some c => (readDouble {} r).map fun p => (gap.text ++ c :: p.1, p.2)
            | none => .error .malformed
    else (readDouble {} gs).map fun p => (gap.text ++ g.char :: p.1, p.2)
termination_by gs => gs.length
decreasing_by all_goals simp only [List.length_cons, List.length_drop]; omega

/-- What a block scalar does with the breaks at its end. -/
inductive Chomp where
  | clip | strip | keep
deriving DecidableEq, Repr

/-- The head of a block scalar: how it ends and how far it is indented beyond its surroundings. -/
structure BlockHead where
  chomp : Chomp
  indent : Option Nat

def chomp? : List Glyph → Option (Chomp × List Glyph)
  | g :: gs =>
    if g.char = '+' then some (.keep, gs) else if g.char = '-' then some (.strip, gs) else none
  | [] => none

/-- Reads an indentation of one digit, if there is one; zero is none. -/
def indentDigit : List Glyph → Except YamlError (Option Nat × List Glyph)
  | g :: gs =>
    if g.char = '0' then .error .malformed
    else if g.char.isDigit then .ok (some (g.char.toNat - '0'.toNat), gs)
    else .ok (none, g :: gs)
  | [] => .ok (none, [])

/-- Reads the indicators behind the one that opens a block scalar; either may come first. -/
def readHead (gs : List Glyph) : Except YamlError (BlockHead × List Glyph) :=
  match chomp? gs with
  | some (chomp, r) => (indentDigit r).map fun p => (⟨chomp, p.1⟩, p.2)
  | none => do
    let (indent, r) ← indentDigit gs
    match indent, chomp? r with
    | some _, some (chomp, r) => return (⟨chomp, indent⟩, r)
    | _, _ => return (⟨.clip, indent⟩, r)

/-- Drops the rest of a line that holds nothing but a comment, and its end. -/
def endLine (gs : List Glyph) : Except YamlError (List Glyph) :=
  match dropComment (dropBlanks gs) with
  | [] => .ok []
  | g :: r => if isBreak g.char then .ok r else .error .malformed

/-- The column of the first text, or the widest blank line before it; `widest` is that of the lines
already seen. -/
def detectIndent (widest : Nat) : List Glyph → Except YamlError Nat
  | [] => .ok widest
  | g :: gs =>
    if g.char = ' ' then detectIndent widest gs
    else if g.char = '\t' then .error .malformed
    else if isBreak g.char then detectIndent (max widest g.column) gs
    else .ok (max widest g.column)

/-- The breaks between two lines of a block scalar. -/
structure LineGap where
  /-- The end of the line before. -/
  first : List Char := []
  /-- The ends of the empty lines that follow it. -/
  more : List Char := []
  /-- Whether the line before begins with a blank. -/
  blank : Bool := false

/-- What breaks contribute before a further line. Folding makes a single line feed a space, unless a
line beside it begins with a blank. -/
def LineGap.text (literal blankAhead : Bool) (b : LineGap) : List Char :=
  if !literal && b.first = ['\n'] && !b.blank && !blankAhead then
    if b.more = [] then [' '] else b.more
  else b.first ++ b.more

def LineGap.tail (chomp : Chomp) (b : LineGap) : List Char :=
  match chomp with
  | .strip => []
  | .clip => b.first
  | .keep => b.first ++ b.more

/-- Reads the lines of a block scalar that begin at a column; `lineGap` holds the breaks in front of
the line whose indentation is read, and nothing inside a line. -/
def readLines (literal : Bool) (chomp : Chomp) (indent : Nat) (lineGap : Option LineGap)
    (blank : Bool) : List Glyph → Except YamlError (List Char × List Glyph)
  | [] => .ok (lineGap.elim [] (LineGap.tail chomp), [])
  | g :: gs =>
    match lineGap with
    | none =>
      if isBreak g.char then readLines literal chomp indent (some ⟨[g.char], [], blank⟩) blank gs
      else
        (readLines literal chomp indent none blank gs).map fun p => (g.char :: p.1, p.2)
    | some b =>
      if g.column < indent && g.char = ' ' then readLines literal chomp indent (some b) blank gs
      else if g.column < indent && g.char = '\t' then .error .malformed
      else if isBreak g.char then
        readLines literal chomp indent (some { b with more := b.more ++ [g.char] }) blank gs
      else if g.column = indent then
        (readLines literal chomp indent none (isBlank g.char) gs).map fun p =>
          (b.text literal (isBlank g.char) ++ g.char :: p.1, p.2)
      else .ok (b.tail chomp, g :: gs)

/-- Reads a block scalar from behind its opening indicator on, in surroundings that are indented to
the column `outer`, if at all. -/
def readBlock (literal : Bool) (outer : Option Nat) (gs : List Glyph) :
    Except YamlError (List Char × List Glyph) := do
  let (head, r) ← readHead gs
  let r ← endLine r
  let indent ← match head.indent with
    | some n => pure (outer.getD 0 + n)
    | none => do
      let widest ← detectIndent 0 r
      pure (max (max widest ((outer.map (· + 1)).getD 0)) 1)
  readLines literal head.chomp indent (some {}) false r

end SoftwareCatalog.Yaml
