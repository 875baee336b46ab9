import SoftwareCatalog.Error
import SoftwareCatalog.Text.Number

namespace SoftwareCatalog.Toml

def isBlank (c : Char) : Bool := c = ' ' || c = '\t'

/-- The characters that texts and comments may hold on a line. -/
def isPlain (c : Char) : Bool := c = '\t' || (0x20 ≤ c.toNat && c.toNat ≠ 0x7F)

def dropBlanks (cs : List Char) : List Char := cs.dropWhile isBlank

/-- What follows an end of line, if one stands here. -/
def newline? : List Char → Option (List Char)
  | '\n' :: cs => some cs
  | '\r' :: '\n' :: cs => some cs
  | _ => none

/-- Drops blanks and ends of lines. -/
def dropLines : List Char → List Char
  | '\r' :: '\n' :: cs => dropLines cs
  | c :: cs => if isBlank c || c = '\n' then dropLines cs else c :: cs
  | [] => []

theorem length_dropLines_le (cs : List Char) : (dropLines cs).length ≤ cs.length := by
  fun_induction dropLines cs with
  | case1 cs ih => simp only [List.length_cons]; omega
  | case2 c cs _ _ ih => simp only [List.length_cons]; omega
  | case3 => exact Nat.le_refl _
  | case4 => exact Nat.le_refl _

/-- The character that an escape of one letter stands for. -/
def escaped? : Char → Option Char
  | 'b' => some '\x08'
  | 't' => some '\t'
  | 'n' => some '\n'
  | 'f' => some '\x0c'
  | 'r' => some '\r'
  | '"' => some '"'
  | '\\' => some '\\'
  | _ => none

/-- Reads an escape from behind its backslash on. -/
def escape? : List Char → Option (Char × List Char)
  | [] => none
  | c :: cs =>
    let hex (n : Nat) : Option (Char × List Char) :=
      if cs.length < n then none
      else
        (Text.readNat 16 (cs.take n)).bind fun v =>
          if v.isValidChar then some (Char.ofNat v, cs.drop n) else none
    if c = 'u' then hex 4
    else if c = 'U' then hex 8
    else (escaped? c).map fun d => (d, cs)

theorem length_of_escape? {cs rest : List Char} {c : Char} (h : escape? cs = some (c, rest)) :
    rest.length < cs.length := by
  cases cs with
  | nil => simp [escape?] at h
  | cons d ds =>
    simp only [escape?] at h
    have hex {n : Nat} (h : (if ds.length < n then none
        else (Text.readNat 16 (ds.take n)).bind fun v =>
          if v.isValidChar then some (Char.ofNat v, ds.drop n) else none) = some (c, rest)) :
        rest.length < (d :: ds).length := by
      split at h
      · simp at h
      · obtain ⟨v, _, hv⟩ := Option.bind_eq_some_iff.1 h
        split at hv
        · simp only [Option.some.injEq, Prod.mk.injEq] at hv
          simp only [← hv.2, List.length_drop, List.length_cons]
          omega
        · simp at hv
    split at h
    · exact hex h
    · split at h
      · exact hex h
      · obtain ⟨e, _, he⟩ := Option.map_eq_some_iff.1 h
        simp only [Prod.mk.injEq] at he
        simp [he.2]

/-- Reads a text on one line from behind its opening double quote on. -/
def readBasic (cs : List Char) : Except SettingsError (List Char × List Char) :=
  match cs with
  | [] => .error .malformed
  | c :: r =>
    if c = '"' then .ok ([], r)
    else if c = '\\' then
      match h : escape? r with
      | some (d, rest) =>
        have : rest.length < r.length + 1 := Nat.lt_succ_of_lt (length_of_escape? h)
        (readBasic rest).map fun p => (d :: p.1, p.2)
      | none => .error .malformed
    else if isPlain c then (readBasic r).map fun p => (c :: p.1, p.2)
    else .error .malformed
termination_by cs.length

/-- Reads a text on one line, without escapes, from behind its opening single quote on. -/
def readLiteral : List Char → Except SettingsError (List Char × List Char)
  | [] => .error .malformed
  | c :: r =>
    if c = '\'' then .ok ([], r)
    else if isPlain c then (readLiteral r).map fun p => (c :: p.1, p.2)
    else .error .malformed

/-- Splits off the quotes that close a text of several lines: up to two more than the three that
close it belong to the text. `seen` counts those just in front. -/
def closing? (q : Char) (seen : Nat) : List Char → Option (List Char × List Char)
  | [] => if 3 ≤ seen && seen < 6 then some (List.replicate (seen - 3) q, []) else none
  | c :: cs =>
    if c = q then closing? q (seen + 1) cs
    else if 3 ≤ seen && seen < 6 then some (List.replicate (seen - 3) q, c :: cs) else none

/-- Whether three quotes stand here. -/
def quotesAhead (q : Char) : List Char → Bool
  | a :: b :: c :: _ => a = q && b = q && c = q
  | _ => false

/-- Drops the end of line behind opening quotes. -/
def dropFirstNewline (cs : List Char) : List Char := (newline? cs).getD cs

/-- Reads a text of several lines up to its closing double quotes. A backslash at the end of a line
drops the white space that follows. -/
def readLongBasic (cs : List Char) : Except SettingsError (List Char × List Char) :=
  match cs with
  | [] => .error .malformed
  | '\r' :: '\n' :: r => (readLongBasic r).map fun p => ('\n' :: p.1, p.2)
  | c :: r =>
    if quotesAhead '"' (c :: r) then
      match closing? '"' 0 (c :: r) with
      | some p => .ok p
      | none => .error .malformed
    else if c = '\\' then
      match h : escape? r with
      | some (d, rest) =>
        have : rest.length < r.length + 1 := Nat.lt_succ_of_lt (length_of_escape? h)
        (readLongBasic rest).map fun p => (d :: p.1, p.2)
      | none =>
        have : (dropLines r).length < r.length + 1 := Nat.lt_succ_of_le (length_dropLines_le r)
        if (newline? (dropBlanks r)).isSome then readLongBasic (dropLines r) else .error .malformed
    else if isPlain c || c = '\n' then (readLongBasic r).map fun p => (c :: p.1, p.2)
    else .error .malformed
termination_by cs.length

/-- Reads a text of several lines, without escapes, up to its closing single quotes. -/
def readLongLiteral : List Char → Except SettingsError (List Char × List Char)
  | [] => .error .malformed
  | '\r' :: '\n' :: r => (readLongLiteral r).map fun p => ('\n' :: p.1, p.2)
  | c :: r =>
    if quotesAhead '\'' (c :: r) then
      match closing? '\'' 0 (c :: r) with
      | some p => .ok p
      | none => .error .malformed
    else if isPlain c || c = '\n' then (readLongLiteral r).map fun p => (c :: p.1, p.2)
    else .error .malformed

/-- The text that begins with a quote here, if one does; `long` allows texts of several lines. -/
def readText? (long : Bool) (cs : List Char) : Option (Except SettingsError (List Char × List Char)) :=
  if long && quotesAhead '"' cs then some (readLongBasic (dropFirstNewline (cs.drop 3)))
  else if long && quotesAhead '\'' cs then some (readLongLiteral (dropFirstNewline (cs.drop 3)))
  else
    match cs with
    | '"' :: r => some (readBasic r)
    | '\'' :: r => some (readLiteral r)
    | _ => none

/-- The length of the longest run of `q`, where `seen` stand in front. -/
def longestRun (q : Char) (seen : Nat) : List Char → Nat
  | [] => seen
  | c :: cs => if c = q then longestRun q (seen + 1) cs else max seen (longestRun q 0 cs)

def isControl (c : Char) : Bool := (c.toNat < 0x20 && c ≠ '\t') || c.toNat = 0x7F

def upperHexDigit (n : Nat) : Char := (Nat.digitChar (n % 16)).toUpper

/-- Writes one character between double quotes. -/
def writeChar (c : Char) : List Char :=
  if c = '\x08' then ['\\', 'b']
  else if c = '\t' then ['\\', 't']
  else if c = '\x0c' then ['\\', 'f']
  else if c = '\r' then ['\\', 'r']
  else if c = '\n' then ['\\', 'n']
  else if c = '\\' then ['\\', '\\']
  else if isControl c then ['\\', 'u', '0', '0', upperHexDigit (c.toNat / 16), upperHexDigit c.toNat]
  else [c]

/-- Writes the text between double quotes; every quote beyond `limit` in a row is escaped, and line
feeds stay in a long text. -/
def writeBasic (long : Bool) (limit seen : Nat) : List Char → List Char
  | [] => []
  | c :: cs =>
    if c = '"' then
      if seen < limit then c :: writeBasic long limit (seen + 1) cs
      else '\\' :: c :: writeBasic long limit 0 cs
    else if c = '\n' && long then c :: writeBasic long limit 0 cs
    else writeChar c ++ writeBasic long limit 0 cs

/-- Writes a text in the first of these forms that needs no escape: between double quotes, between
single quotes, on several lines between double or between single quotes. -/
def writeText (s : String) : String :=
  let cs := s.toList
  let controls := cs.any fun c => isControl c && c ≠ '\n'
  let long := cs.contains '\n'
  let escapes := cs.contains '\\'
  let doubles := longestRun '"' 0 cs
  let singles := longestRun '\'' 0 cs
  let opened (q : String) : String := q ++ (if long then "\n" else "")
  let basic := "\"" ++ String.ofList (writeBasic false 0 0 cs) ++ "\""
  let longBasic := opened "\"\"\"" ++ String.ofList (writeBasic true 2 0 cs) ++ "\"\"\""
  if !controls && !escapes && doubles = 0 && !long then basic
  else if !controls && singles = 0 && !long then "'" ++ s ++ "'"
  else if !controls && !escapes && doubles ≤ 2 then longBasic
  else if !controls && singles ≤ 2 then opened "'''" ++ s ++ "'''"
  else if long then longBasic
  else basic

example : writeText "a\"b" = "'a\"b'" := by decide +kernel
example : writeText "tab\t" = "\"tab\\t\"" := by decide +kernel

end SoftwareCatalog.Toml
