namespace SoftwareCatalog.Text

def digitValue? (radix : Nat) (c : Char) : Option Nat :=
  let n := c.toNat
  let v :=
    if '0'.toNat ≤ n ∧ n ≤ '9'.toNat then some (n - '0'.toNat)
    else if 'a'.toNat ≤ n ∧ n ≤ 'z'.toNat then some (n - 'a'.toNat + 10)
    else if 'A'.toNat ≤ n ∧ n ≤ 'Z'.toNat then some (n - 'A'.toNat + 10)
    else none
  v.filter (· < radix)

def readDigits (radix acc : Nat) : List Char → Option Nat
  | [] => some acc
  | c :: cs => (digitValue? radix c).bind fun d => readDigits radix (acc * radix + d) cs

/-- At least one digit and nothing but digits. -/
def readNat (radix : Nat) : List Char → Option Nat
  | [] => none
  | cs => readDigits radix 0 cs

/-- A number below `limit`, with or without a plus sign. -/
def readUnsigned (radix limit : Nat) (cs : List Char) : Option Nat :=
  (match cs with
    | '+' :: r => readNat radix r
    | r => readNat radix r).filter (· < limit)

/-- A number from `-limit` to `limit - 1`, with or without a sign. -/
def readSigned (radix limit : Nat) (cs : List Char) : Option Int :=
  match cs with
  | '-' :: r => ((readNat radix r).filter (· ≤ limit)).map fun n => -(n : Int)
  | r => (readUnsigned radix limit r).map fun n => (n : Int)

/-- Whether a number fits into a signed type of some bits. -/
def fitsSigned (bits : Nat) (n : Int) : Bool :=
  -((1 <<< (bits - 1) : Nat) : Int) ≤ n && n < ((1 <<< (bits - 1) : Nat) : Int)

def fitsUnsigned (bits : Nat) (n : Int) : Bool := 0 ≤ n && n < ((1 <<< bits : Nat) : Int)

def nat32? (s : String) : Option Nat := readUnsigned 10 (1 <<< 32) s.toList

def nat64? (s : String) : Option Nat := readUnsigned 10 (1 <<< 64) s.toList

def nat8? (s : String) : Option Nat := readUnsigned 10 (1 <<< 8) s.toList

def int32? (s : String) : Option Int := readSigned 10 (1 <<< 31) s.toList

example : nat32? "+4294967295" = some 4294967295 := by decide
example : nat32? "4294967296" = none := by decide
example : int32? "-2147483648" = some (-2147483648) := by decide
example : nat8? "-0" = none := by decide

end SoftwareCatalog.Text
