import SoftwareCatalog.Text.CaseTable

namespace SoftwareCatalog.Text

def inRanges (rs : List (Nat × Nat)) (c : Char) : Bool :=
  rs.any fun r => r.1 ≤ c.toNat && c.toNat ≤ r.2

def isCased (c : Char) : Bool := inRanges casedRanges c

def isCaseIgnorable (c : Char) : Bool := inRanges caseIgnorableRanges c

/-- The lowercase form of one character; only the dotted capital I takes two. -/
def lowerChar (c : Char) : List Char :=
  if c.toNat < 0x80 then [c.toLower]
  else if c.toNat = 0x130 then ['i', '\u0307']
  else
    match lowercaseRuns.find? fun r => r.Covers c.toNat with
    | some r => [Char.ofNat (c.toNat + r.offset).toNat]
    | none => [c]

/-- Whether the first character that is not case-ignorable is cased. -/
def cased (cs : List Char) : Bool :=
  match cs.dropWhile isCaseIgnorable with
  | c :: _ => isCased c
  | [] => false

/-- Lowercases `cs`, where `before` holds the characters in front of it, nearest first. A capital
sigma that ends a word becomes the final sigma. -/
def lowerWords (before : List Char) : List Char → List Char
  | [] => []
  | c :: cs =>
    (if c = 'Σ' then [if cased before && !cased cs then 'ς' else 'σ'] else lowerChar c) ++
      lowerWords (c :: before) cs

/-- Lowercase by the full mapping, which looks at the neighbours of a capital sigma. -/
def lower (s : String) : String :=
  String.ofList (lowerWords [] s.toList)

/-- Lowercase character by character, so that every capital sigma becomes the medial one. -/
def lowerEach (s : String) : String :=
  String.ofList (s.toList.flatMap lowerChar)

end SoftwareCatalog.Text
