import SoftwareCatalog.Error
import SoftwareCatalog.Text.Number

namespace SoftwareCatalog.Xml

/-- The reference that stands for a character with a meaning in markup. -/
def escapeChar (c : Char) : List Char :=
  if c = '<' then "&lt;".toList
  else if c = '>' then "&gt;".toList
  else if c = '&' then "&amp;".toList
  else if c = '\'' then "&apos;".toList
  else if c = '"' then "&quot;".toList
  else [c]

def escape (cs : List Char) : List Char := cs.flatMap escapeChar

/-- The character with a number, if there is one; zero counts as none. -/
def charOfNumber (n : Nat) : Option Char :=
  if n ≠ 0 ∧ (n < 0xD800 ∨ (0xDFFF < n ∧ n < 0x110000)) then some (Char.ofNat n) else none

/-- The character that a reference stands for. -/
def reference : List Char → Option Char
  | '#' :: 'x' :: ds => (Text.readNat 16 ds).bind charOfNumber
  | '#' :: ds => (Text.readNat 10 ds).bind charOfNumber
  | name =>
    if name = "lt".toList then some '<'
    else if name = "gt".toList then some '>'
    else if name = "amp".toList then some '&'
    else if name = "apos".toList then some '\''
    else if name = "quot".toList then some '"'
    else none

/-- The name of a reference and what follows its semicolon. -/
def referenceName : List Char → Option (List Char × List Char)
  | [] => none
  | c :: cs =>
    if c = ';' then some ([], cs)
    else if c = '&' then none
    else (referenceName cs).map fun r => (c :: r.1, r.2)

theorem length_of_referenceName {cs a b : List Char} (h : referenceName cs = some (a, b)) :
    b.length < cs.length := by
  induction cs generalizing a with
  | nil => simp [referenceName] at h
  | cons c cs ih =>
    simp only [referenceName] at h
    split at h
    · simp only [Option.some.injEq, Prod.mk.injEq] at h
      simp [← h.2]
    · split at h
      · simp at h
      · obtain ⟨⟨a', b'⟩, h', he⟩ := Option.map_eq_some_iff.1 h
        simp only [Prod.mk.injEq] at he
        have := ih (he.2 ▸ h')
        simp only [List.length_cons]
        omega

/-- Puts characters for references; a reference that stands for none makes the text malformed. -/
def unescape : List Char → Except XmlError (List Char)
  | [] => .ok []
  | c :: cs =>
    if c = '&' then
      match h : referenceName cs with
      | none => .error .malformed
      | some (name, rest) =>
        match reference name with
        | none => .error .malformed
        | some d =>
          have : rest.length < cs.length + 1 := Nat.lt_succ_of_lt (length_of_referenceName h)
          (unescape rest).map (d :: ·)
    else (unescape cs).map (c :: ·)
termination_by cs => cs.length

end SoftwareCatalog.Xml
