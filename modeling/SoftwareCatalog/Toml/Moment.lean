import SoftwareCatalog.Text.Fields
import SoftwareCatalog.Text.Number

namespace SoftwareCatalog.Toml

/-- The number that a field of exactly `width` digits writes. -/
def digits? (width : Nat) (cs : List Char) : Option Nat :=
  if cs.length = width && cs.all Char.isDigit then Text.readNat 10 cs else none

def isLeapYear (year : Nat) : Bool := year % 4 = 0 && (year % 100 ≠ 0 || year % 400 = 0)

def daysInMonth (year month : Nat) : Nat :=
  if month = 2 then if isLeapYear year then 29 else 28
  else if [4, 6, 9, 11].contains month then 30
  else 31

/-- Whether the text is a day of the calendar. -/
def isDate (cs : List Char) : Bool :=
  match cs.splitOn '-' with
  | [y, m, d] =>
    match digits? 4 y, digits? 2 m, digits? 2 d with
    | some year, some month, some day =>
      1 ≤ month && month ≤ 12 && 1 ≤ day && day ≤ daysInMonth year month
    | _, _, _ => false
  | _ => false

def isHour (cs : List Char) : Bool := (digits? 2 cs).any (· < 24)

def isMinute (cs : List Char) : Bool := (digits? 2 cs).any (· < 60)

/-- A second, which may be a leap second, and any number of decimals. -/
def isSecond (cs : List Char) : Bool :=
  let whole := cs.takeWhile (· ≠ '.')
  (digits? 2 whole).any (· ≤ 60) &&
    match cs.dropWhile (· ≠ '.') with
    | [] => true
    | _ :: part => part ≠ [] && part.all Char.isDigit

/-- Whether the text is a time of day. -/
def isTime (cs : List Char) : Bool :=
  match cs.splitOn ':' with
  | [h, m, s] => isHour h && isMinute m && isSecond s
  | _ => false

/-- Whether the text is a distance from universal time. -/
def isOffset (cs : List Char) : Bool :=
  match cs with
  | ['Z'] | ['z'] => true
  | c :: r =>
    (c = '+' || c = '-') &&
      match r.splitOn ':' with
      | [h, m] => isHour h && isMinute m
      | _ => false
  | [] => false

def isOffsetSign (c : Char) : Bool := ['Z', 'z', '+', '-'].contains c

/-- Whether the text is a time of day, with or without an offset. -/
def isZonedTime (cs : List Char) : Bool :=
  let rest := cs.dropWhile (!isOffsetSign ·)
  isTime (cs.takeWhile (!isOffsetSign ·)) && (rest = [] || isOffset rest)

/-- Whether the text is a moment: a date, a time of day, or both, then with or without an offset. -/
def isMoment (cs : List Char) : Bool :=
  let date := cs.take 10
  isTime cs || (isDate date &&
    match cs.drop 10 with
    | [] => true
    | c :: r => (c = 'T' || c = 't' || c = ' ') && isZonedTime r)

example : isMoment "1979-05-27T07:32:00.5-08:00".toList = true := by decide +kernel
example : isMoment "2023-02-29".toList = false := by decide +kernel

end SoftwareCatalog.Toml
