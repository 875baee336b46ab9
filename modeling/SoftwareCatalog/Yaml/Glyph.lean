namespace SoftwareCatalog.Yaml

/-- A character and its place in the text. -/
structure Glyph where
  char : Char
  index : Nat
  line : Nat
  column : Nat
deriving DecidableEq, Repr

/-- The characters a text may hold: tabs, line ends and what can be printed. -/
def isAllowed (c : Char) : Bool :=
  let n := c.toNat
  n == 0x9 || n == 0xA || n == 0xD || (0x20 ≤ n && n ≤ 0x7E) || n == 0x85 ||
    (0xA0 ≤ n && n ≤ 0xFFFD) || 0x10000 ≤ n

def isBlank (c : Char) : Bool := c = ' ' || c = '\t'

/-- The ends of lines, once the other ones have become line feeds. -/
def isBreak (c : Char) : Bool := c = '\n' || c = '\u2028' || c = '\u2029'

def isGap (c : Char) : Bool := isBlank c || isBreak c

/-- Letters, digits, hyphens and low lines. -/
def isNameChar (c : Char) : Bool := c.isAlphanum || c = '-' || c = '_'

/-- Places the characters from a position on. Carriage returns, also before a line feed, and next
lines become line feeds. -/
def place (index line column : Nat) : List Char → List Glyph
  | [] => []
  | '\r' :: '\n' :: cs => ⟨'\n', index, line, column⟩ :: place (index + 2) (line + 1) 0 cs
  | c :: cs =>
    let d := if c = '\r' || c = '\u0085' then '\n' else c
    ⟨d, index, line, column⟩ ::
      if isBreak d then place (index + 1) (line + 1) 0 cs else place (index + 1) line (column + 1) cs

/-- The placed characters of a text; a mark of the byte order takes a column. -/
def glyphs : List Char → List Glyph
  | '\uFEFF' :: cs => place 1 0 1 cs
  | cs => place 0 0 0 cs

/-- Whether the text ends here or goes on with a blank or a break. -/
def gapAhead : List Glyph → Bool
  | [] => true
  | g :: _ => isGap g.char

/-- Whether the next character is one of `cs`. -/
def nextIn (cs : List Char) : List Glyph → Bool
  | [] => false
  | g :: _ => cs.contains g.char

/-- Whether three marks `c` at the start of a line begin or end a document here. -/
def isMarker (c : Char) : List Glyph → Bool
  | a :: b :: d :: gs => a.column = 0 && a.char = c && b.char = c && d.char = c && gapAhead gs
  | _ => false

def atMarker (gs : List Glyph) : Bool := isMarker '-' gs || isMarker '.' gs

def dropBlanks (gs : List Glyph) : List Glyph := gs.dropWhile fun g => isBlank g.char

/-- Drops a comment that begins here. -/
def dropComment (gs : List Glyph) : List Glyph :=
  match gs with
  | g :: _ => if g.char = '#' then gs.dropWhile fun g => !isBreak g.char else gs
  | [] => []

end SoftwareCatalog.Yaml
