import SoftwareCatalog.Text.Number

namespace SoftwareCatalog

/-- A binary floating-point number of 64 bits; zero has no sign. -/
inductive Binary64 where
  | finite (mantissa : Int) (exponent : Int)
  | infinite (negative : Bool)
  | nan
deriving DecidableEq, Repr

namespace Binary64

/-- The quotient rounded to the nearest number, a tie to the even one. -/
def roundDiv (n d : Nat) : Nat :=
  let q := n / d
  let r := n % d
  if 2 * r < d || (2 * r = d && q % 2 = 0) then q else q + 1

/-- The fraction `n / (d * 2 ^ e)`. -/
def scaled (n d : Nat) (e : Int) : Nat × Nat :=
  (n <<< (-e).toNat, d <<< e.toNat)

/-- The mantissa of 53 bits and the exponent that are nearest to `n / d`; none where that is beyond
the largest number. -/
def roundRatio (n d : Nat) : Option (Nat × Int) :=
  let guess : Int := n.log2 - d.log2 - 52
  let fits := scaled n d guess
  let e := max (if fits.1 / fits.2 < 1 <<< 52 then guess - 1 else guess) (-1074)
  let r := scaled n d e
  let m := roundDiv r.1 r.2
  let (m, e) := if m = 1 <<< 53 then (1 <<< 52, e + 1) else (m, e)
  if m = 0 then some (0, 0) else if 971 < e then none else some (m, e)

/-- The number nearest to `m * 10 ^ x`. Values far out of range are told by their magnitude. -/
def ofDecimal (negative : Bool) (m : Nat) (x : Int) : Binary64 :=
  let magnitude : Int := (Nat.toDigits 10 m).length + x
  let rounded :=
    if m = 0 || magnitude < -330 then some (0, 0)
    else if 330 < magnitude then none
    else roundRatio (m * Nat.pow 10 x.toNat) (Nat.pow 10 (-x).toNat)
  match rounded with
  | none => .infinite negative
  | some (m, e) => .finite (if negative then -(m : Int) else m) e

def isFinite : Binary64 → Bool
  | .finite .. => true
  | _ => false

/-- The exponent behind a decimal number: none, or a letter `e` and a number. -/
def exponent? : List Char → Option Int
  | [] => some 0
  | c :: cs =>
    if c = 'e' || c = 'E' then
      match cs with
      | '-' :: ds => (Text.readNat 10 ds).map fun n => -(n : Int)
      | '+' :: ds => (Text.readNat 10 ds).map fun n => (n : Int)
      | ds => (Text.readNat 10 ds).map fun n => (n : Int)
    else none

/-- Digits, with or without a point and an exponent. -/
def unsigned? (negative : Bool) (cs : List Char) : Option Binary64 := do
  let whole := cs.takeWhile Char.isDigit
  let rest := cs.dropWhile Char.isDigit
  let (part, rest) :=
    match rest with
    | '.' :: r => (r.takeWhile Char.isDigit, r.dropWhile Char.isDigit)
    | r => ([], r)
  let m ← Text.readNat 10 (whole ++ part)
  let e ← exponent? rest
  return ofDecimal negative m (e - part.length)

/-- Reads a decimal number, with or without a sign. -/
def decimal? : List Char → Option Binary64
  | '-' :: cs => unsigned? true cs
  | '+' :: cs => unsigned? false cs
  | cs => unsigned? false cs

example : decimal? "1.5".toList = decimal? "15e-1".toList := by decide +kernel
example : decimal? "-.5".toList = some (.finite (-2 ^ 52) (-53)) := by decide +kernel
example : decimal? "1e400".toList = some (.infinite false) := by decide +kernel
example : decimal? ".".toList = none := by decide +kernel

end Binary64

end SoftwareCatalog
