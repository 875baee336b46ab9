namespace SoftwareCatalog.Text

/-- The Unicode property White_Space. -/
def isBlank (c : Char) : Bool :=
  let n := c.toNat
  (0x09 ≤ n && n ≤ 0x0D) || n == 0x20 || n == 0x85 || n == 0xA0 || n == 0x1680 ||
    (0x2000 ≤ n && n ≤ 0x200A) || n == 0x2028 || n == 0x2029 || n == 0x202F || n == 0x205F ||
    n == 0x3000

/-- The visible ASCII characters that are neither letters nor digits. -/
def isPunctuation (c : Char) : Bool :=
  let n := c.toNat
  (0x21 ≤ n && n ≤ 0x2F) || (0x3A ≤ n && n ≤ 0x40) || (0x5B ≤ n && n ≤ 0x60) ||
    (0x7B ≤ n && n ≤ 0x7E)

def trimEndList (p : Char → Bool) (cs : List Char) : List Char :=
  (cs.reverse.dropWhile p).reverse

/-- Drops the characters with `p` from both ends. -/
def trimList (p : Char → Bool) (cs : List Char) : List Char :=
  trimEndList p (cs.dropWhile p)

def trimBy (p : Char → Bool) (s : String) : String :=
  String.ofList (trimList p s.toList)

def trim (s : String) : String :=
  trimBy isBlank s

theorem trimList_nil (p : Char → Bool) : trimList p [] = [] := rfl

end SoftwareCatalog.Text
