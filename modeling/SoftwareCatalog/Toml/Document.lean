import SoftwareCatalog.Text.Fields
import SoftwareCatalog.Toml.Moment
import SoftwareCatalog.Toml.Table
import SoftwareCatalog.Toml.Text

namespace SoftwareCatalog.Toml

/-- The digits of a number without the low lines between them. -/
def joined? (isDigit : Char → Bool) (cs : List Char) : Option (List Char) :=
  let parts := cs.splitOn '_'
  if parts.all fun p => p ≠ [] && p.all isDigit then some parts.flatten else none

def isHexDigit (c : Char) : Bool := (Text.digitValue? 16 c).isSome

def isOctalDigit (c : Char) : Bool := (Text.digitValue? 8 c).isSome

def isBinaryDigit (c : Char) : Bool := (Text.digitValue? 2 c).isSome

/-- Digits without a needless zero in front. -/
def whole? (cs : List Char) : Option (List Char) :=
  (joined? Char.isDigit cs).filter fun ds => ds.length = 1 || ds.head? ≠ some '0'

def unsignedInt? : List Char → Option Nat
  | '0' :: 'x' :: ds => (joined? isHexDigit ds).bind (Text.readNat 16)
  | '0' :: 'o' :: ds => (joined? isOctalDigit ds).bind (Text.readNat 8)
  | '0' :: 'b' :: ds => (joined? isBinaryDigit ds).bind (Text.readNat 2)
  | ds => (whole? ds).bind (Text.readNat 10)

/-- A whole number of 64 bits; only decimal ones have a sign. -/
def int? (cs : List Char) : Option Int :=
  (match cs with
    | '-' :: r => ((whole? r).bind (Text.readNat 10)).map fun n => -(n : Int)
    | '+' :: r => ((whole? r).bind (Text.readNat 10)).map fun n => (n : Int)
    | r => (unsignedInt? r).map fun n => (n : Int)).filter (Text.fitsSigned 64)

/-- A number with decimals, an exponent or both. -/
def unsignedFloat? (negative : Bool) (cs : List Char) : Option Binary64 := do
  let isExponent (c : Char) : Bool := c = 'e' || c = 'E'
  let mantissa := cs.takeWhile (!isExponent ·)
  let exponent := cs.dropWhile (!isExponent ·)
  let ds ← whole? (mantissa.takeWhile (· ≠ '.'))
  let part ← match mantissa.dropWhile (· ≠ '.') with
    | [] => if exponent = [] then none else some []
    | _ :: ps => joined? Char.isDigit ps
  let e : Int ← match exponent with
    | [] => some 0
    | _ :: '-' :: es => ((joined? Char.isDigit es).bind (Text.readNat 10)).map fun n => -(n : Int)
    | _ :: '+' :: es => ((joined? Char.isDigit es).bind (Text.readNat 10)).map fun n => (n : Int)
    | _ :: es => ((joined? Char.isDigit es).bind (Text.readNat 10)).map fun n => (n : Int)
  let m ← Text.readNat 10 (ds ++ part)
  return Binary64.ofDecimal negative m (e - part.length)

/-- A number that is not whole, or a name for one. Numbers that are too large are refused, unless
they are negative. -/
def float? (cs : List Char) : Option Binary64 :=
  let read (negative : Bool) (r : List Char) : Option Binary64 :=
    if r = "inf".toList then some (.infinite negative)
    else if r = "nan".toList then some .nan
    else (unsignedFloat? negative r).filter (· ≠ .infinite false)
  match cs with
  | '-' :: r => read true r
  | '+' :: r => read false r
  | r => read false r

/-- A value without quotes and brackets. -/
def bare? (cs : List Char) : Option Value :=
  if cs = "true".toList then some (.bool true)
  else if cs = "false".toList then some (.bool false)
  else if isMoment cs then some (.moment (String.ofList cs))
  else ((float? cs).map Value.float).or ((int? cs).map Value.int)

def isBareChar (c : Char) : Bool := c.isAlphanum || ['+', '-', '_', '.', ':'].contains c

/-- Reads a value without quotes and brackets. A blank may stand between a date and a time. -/
def readBare (cs : List Char) : Except SettingsError (Value × List Char) :=
  let word := cs.takeWhile isBareChar
  let rest := cs.dropWhile isBareChar
  let more := (rest.drop 1).takeWhile isBareChar
  if isDate word && rest.head? = some ' ' && isZonedTime more then
    .ok (.moment (String.ofList (word ++ ' ' :: more)), rest.drop (1 + more.length))
  else
    match bare? word with
    | some v => .ok (v, rest)
    | none => .error .malformed

def isKeyChar (c : Char) : Bool := c.isAlphanum || c = '_' || c = '-'

/-- Reads one part of a key, with or without quotes. -/
def readKeyPart (cs : List Char) : Except SettingsError (String × List Char) :=
  match readText? false cs with
  | some r => r.map fun p => (String.ofList p.1, p.2)
  | none =>
    match cs.takeWhile isKeyChar with
    | [] => .error .malformed
    | word => .ok (String.ofList word, cs.dropWhile isKeyChar)

/-- Keys and values nest less deep than this. -/
def depthLimit : Nat := 80

/-- Reads a dotted key of at most `fuel` parts, and the blanks behind it. -/
def readKey : Nat → List Char → Except SettingsError (List String × List Char)
  | 0, _ => .error .malformed
  | fuel + 1, cs => do
    let (part, r) ← readKeyPart (dropBlanks cs)
    match dropBlanks r with
    | '.' :: r =>
      let (parts, r) ← readKey fuel r
      return (part :: parts, r)
    | r => return ([part], r)

/-- The path of a key and its last part. -/
def splitLast (parts : List String) : List String × String := (parts.dropLast, parts.getLastD "")

/-- Drops the blanks, ends of lines and comments between the items of an array. -/
def dropComments (inComment : Bool) : List Char → Except SettingsError (List Char)
  | [] => .ok []
  | '\r' :: '\n' :: cs => dropComments false cs
  | c :: cs =>
    if c = '\n' then dropComments false cs
    else if inComment then if isPlain c then dropComments true cs else .error .malformed
    else if isBlank c then dropComments false cs
    else if c = '#' then dropComments true cs
    else .ok (c :: cs)

/-- Puts entries with dotted keys into a table in braces. -/
def inlineTable (es : List (List String × Value)) : Except SettingsError Value := do
  let t ← es.foldlM (fun t e =>
    let key := splitLast e.1
    Table.addAt key.1 key.2 e.2 t) (Table.empty .explicit)
  return .inline t

mutual

/-- Reads a value with at most `fuel` steps, with brackets nested at most `depth` deep. -/
def readValue (fuel depth : Nat) (cs : List Char) : Except SettingsError (Value × List Char) :=
  match fuel with
  | 0 => .error .malformed
  | fuel + 1 =>
    match readText? true cs with
    | some r => r.map fun p => (.string (String.ofList p.1), p.2)
    | none =>
      match cs, depth with
      | '[' :: r, depth + 1 => (readItems fuel depth r).map fun p => (.array p.1, p.2)
      | '\x7b' :: r, depth + 1 =>
        match dropBlanks r with
        | '\x7d' :: r => .ok (.inline (.empty .explicit), r)
        | r => do
          let (es, r) ← readEntries fuel depth r
          return (← inlineTable es, r)
      | cs, _ => readBare cs

/-- Reads the items of an array up to its closing bracket. -/
def readItems (fuel depth : Nat) (cs : List Char) : Except SettingsError (List Value × List Char) :=
  match fuel with
  | 0 => .error .malformed
  | fuel + 1 => do
    match ← dropComments false cs with
    | ']' :: r => return ([], r)
    | r =>
      let (v, r) ← readValue fuel depth r
      match ← dropComments false r with
      | ',' :: r =>
        let (vs, r) ← readItems fuel depth r
        return (v :: vs, r)
      | ']' :: r => return ([v], r)
      | _ => throw .malformed

/-- Reads the entries of a table up to its closing brace; there is at least one. -/
def readEntries (fuel depth : Nat) (cs : List Char) :
    Except SettingsError (List (List String × Value) × List Char) :=
  match fuel with
  | 0 => .error .malformed
  | fuel + 1 => do
    let (key, r) ← readKey (depthLimit - 1) cs
    match r with
    | '=' :: r =>
      let (v, r) ← readValue fuel depth (dropBlanks r)
      match dropBlanks r with
      | ',' :: r =>
        let (es, r) ← readEntries fuel depth r
        return ((key, v) :: es, r)
      | '\x7d' :: r => return ([(key, v)], r)
      | _ => throw .malformed
    | _ => throw .malformed

end

/-- What the lines read so far define: all tables, and where entries are added. -/
structure Reading where
  root : Table := .empty .explicit
  path : List String := []

/-- Ends a line, with or without a comment. -/
def endLine (cs : List Char) : Except SettingsError (List Char) :=
  let r := match dropBlanks cs with
    | '#' :: r => r.dropWhile isPlain
    | r => r
  match r with
  | [] => .ok []
  | r =>
    match newline? r with
    | some rest => .ok rest
    | none => .error .malformed

/-- Reads the key of a header and opens its table. -/
def readHeader (s : Reading) (close : List Char) (f : String → Table → Except SettingsError Table)
    (cs : List Char) : Except SettingsError (Reading × List Char) := do
  let (parts, r) ← readKey (depthLimit - 1) cs
  match close.isPrefixOf? r with
  | none => throw .malformed
  | some r =>
    let (path, key) := splitLast parts
    return (⟨← s.root.modifyAt false (f key) path, parts⟩, ← endLine r)

/-- Reads one line. -/
def readLine (s : Reading) (cs : List Char) : Except SettingsError (Reading × List Char) :=
  match dropBlanks cs with
  | [] => .ok (s, [])
  | '[' :: '[' :: r => readHeader s [']', ']'] Table.openNext r
  | '[' :: r => readHeader s [']'] Table.openTable r
  | r =>
    if r.head? = some '#' || (newline? r).isSome then (endLine r).map fun r => (s, r)
    else do
      let (parts, r) ← readKey (depthLimit - 1) r
      match r with
      | '=' :: r =>
        let (v, r) ← readValue (4 * r.length + 4) (depthLimit - 1) (dropBlanks r)
        let (path, key) := splitLast parts
        let root ← s.root.modifyAt false (Table.addAt path key v) s.path
        return ({ s with root }, ← endLine r)
      | _ => throw .malformed

/-- Reads up to `fuel` further lines. -/
def readLinesFrom : Nat → Reading → List Char → Except SettingsError Reading
  | _, s, [] => .ok s
  | 0, _, _ => .error .malformed
  | fuel + 1, s, cs => do
    let (t, rest) ← readLine s cs
    readLinesFrom fuel t rest

/-- Reads a document; a mark of the byte order in front of it is dropped. Each line takes a
character. -/
def readDocument (text : String) : Except SettingsError Table :=
  let cs := match text.toList with
    | '\uFEFF' :: cs => cs
    | cs => cs
  (readLinesFrom (cs.length + 1) {} cs).map Reading.root

end SoftwareCatalog.Toml
