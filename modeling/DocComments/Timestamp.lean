import DocComments.Text.Cut
import DocComments.Text.Space

/-!
# Points in time

A point in time is a number of seconds since the start of 1970 and a part of the second that follows. It is
written as a date and a time of day in universal time. On reading, the parts may be one digit short, blanks
may stand between them, and an offset from universal time is taken into account.

* `Timestamp.text`: how a point in time is written.
* `Timestamp.read?`: the point in time that a text spells.
-/

namespace DocComments

structure Timestamp where
  seconds : Int
  nanos : Nat := 0
  deriving DecidableEq, Inhabited

namespace Timestamp

def isLeap (year : Int) : Bool :=
  year % 4 = 0 && (year % 100 ≠ 0 || year % 400 = 0)

def daysInMonth (year : Int) (month : Nat) : Nat :=
  if month = 2 then (if isLeap year then 29 else 28)
  else if [4, 6, 9, 11].contains month then 30
  else 31

/-- The number of days before a year, counted from the start of year 0. -/
def daysBeforeYear (year : Int) : Int :=
  let y := year - 1
  365 * year + y / 4 - y / 100 + y / 400 + 1

/-- The number of days before a month of a year. -/
def daysBeforeMonth (year : Int) (month : Nat) : Nat :=
  ((List.range (month - 1)).map fun m => daysInMonth year (m + 1)).foldl (· + ·) 0

/-- The number of days from the start of 1970 to a date. -/
def dayNumber (year : Int) (month day : Nat) : Int :=
  daysBeforeYear year + daysBeforeMonth year month + day - 1 - daysBeforeYear 1970

/-- The month and the day of the month of a day of a year, which is counted from 0. -/
def monthOf (year : Int) : (months : List Nat) → (day : Nat) → Nat × Nat
  | [], day => (12, day + 1)
  | m :: ms, day =>
    if day < daysInMonth year m then (m, day + 1) else monthOf year ms (day - daysInMonth year m)

/-- The year of a day. Dividing by the mean length of a year misses by at most one. -/
def yearOf (day : Int) : Int :=
  let d := day + daysBeforeYear 1970
  let y := d * 400 / 146097
  if d < daysBeforeYear y then y - 1
  else if daysBeforeYear (y + 1) ≤ d then y + 1
  else y

/-- Digits, with zeros in front up to a width. -/
def padded (width n : Nat) : String :=
  let ds := Nat.toDigits 10 n
  String.ofList (List.replicate (width - ds.length) '0' ++ ds)

/-- A part of a second: nothing, or as many groups of three digits as it needs. -/
def fraction (nanos : Nat) : String :=
  if nanos = 0 then ""
  else if nanos % 1000000 = 0 then "." ++ padded 3 (nanos / 1000000)
  else if nanos % 1000 = 0 then "." ++ padded 6 (nanos / 1000)
  else "." ++ padded 9 nanos

def yearText (year : Int) : String :=
  if 0 ≤ year && year ≤ 9999 then padded 4 year.toNat
  else (if year < 0 then "-" else "+") ++ padded 4 year.natAbs

/-- A point in time in universal time. -/
def text (t : Timestamp) : String :=
  let day := t.seconds / 86400
  let rest := (t.seconds % 86400).toNat
  let year := yearOf day
  let (month, d) := monthOf year (List.range' 1 12) (day + daysBeforeYear 1970 - daysBeforeYear year).toNat
  yearText year ++ "-" ++ padded 2 month ++ "-" ++ padded 2 d ++ "T" ++ padded 2 (rest / 3600) ++ ":" ++
    padded 2 (rest / 60 % 60) ++ ":" ++ padded 2 (rest % 60) ++ fraction t.nanos ++ "Z"

namespace Reader

def skip (cs : List Char) : List Char :=
  cs.dropWhile Text.isSpace

def number (ds : List Char) : Nat :=
  ds.foldl (fun n d => 10 * n + (d.toNat - '0'.toNat)) 0

/-- A number of at most `width` digits, behind blanks. -/
def digits? (width : Nat) (cs : List Char) : Option (Nat × List Char) :=
  let cs := skip cs
  let ds := (cs.take width).takeWhile Char.isDigit
  if ds.isEmpty then none else some (number ds, cs.drop ds.length)

/-- A year has at most four digits, unless it has a sign. -/
def year? (cs : List Char) : Option (Int × List Char) :=
  match skip cs with
  | '-' :: cs => (signed? cs).map fun (n, cs) => (-(n : Int), cs)
  | '+' :: cs => (signed? cs).map fun (n, cs) => ((n : Int), cs)
  | cs => (digits? 4 cs).map fun (n, cs) => ((n : Int), cs)
where
  signed? (cs : List Char) : Option (Nat × List Char) :=
    if cs.head?.any Char.isDigit then digits? cs.length cs else none

/-- A mark, behind blanks. -/
def mark? (c : Char) (cs : List Char) : Option (List Char) :=
  match skip cs with
  | d :: cs => if c = d then some cs else none
  | [] => none

/-- A part of a second, if there is one; digits behind the ninth do not count. -/
def fraction? : List Char → Option (Nat × List Char)
  | '.' :: cs =>
    let ds := cs.takeWhile Char.isDigit
    if ds.isEmpty then none
    else some (number ((ds ++ List.replicate 9 '0').take 9), cs.drop ds.length)
  | cs => some (0, cs)

def pair? : List Char → Option (Nat × List Char)
  | a :: b :: cs => if a.isDigit && b.isDigit then some (number [a, b], cs) else none
  | _ => none

/-- An offset from universal time in seconds. -/
def offset? (cs : List Char) : Option (Int × List Char) :=
  let cs := skip cs
  if (cs.take 3).map Char.toUpper = "UTC".toList then some (0, cs.drop 3)
  else
    match cs with
    | [] => none
    | c :: cs =>
      if c = 'Z' || c = 'z' then some (0, cs)
      else if c = '+' || c = '-' || c.toNat = 0x2212 then do
        let (hours, cs) ← pair? cs
        let (minutes, cs) ← pair? (cs.dropWhile fun c => c = ':' || Text.isSpace c)
        if 60 ≤ minutes || 24 ≤ hours then none
        else
          let n : Int := hours * 3600 + minutes * 60
          some (if c = '+' then n else -n, cs)
      else none

end Reader

/-- Years that a date may have, here and in universal time. -/
def isYear (year : Int) : Bool :=
  -262143 ≤ year && year ≤ 262142

open Reader in
/-- The point in time that a whole text spells. A sixtieth second is a leap second. -/
def read? (s : String) : Option Timestamp := do
  let (year, cs) ← year? s.toList
  let (month, cs) ← digits? 2 (← mark? '-' cs)
  let (day, cs) ← digits? 2 (← mark? '-' cs)
  let sep :: cs := cs | none
  if sep ≠ 'T' && sep ≠ 't' && sep ≠ ' ' then none
  let (hour, cs) ← digits? 2 cs
  let (minute, cs) ← digits? 2 (← mark? ':' cs)
  let (second, cs) ← digits? 2 (← mark? ':' cs)
  let (nanos, cs) ← Reader.fraction? cs
  let (offset, cs) ← offset? cs
  if ! (skip cs).isEmpty then none
  if month < 1 || 12 < month || day < 1 || daysInMonth year month < day then none
  if 23 < hour || 59 < minute || 60 < second then none
  let leap := second = 60
  let time : Int := hour * 3600 + minute * 60 + (if leap then 59 else second)
  let seconds := dayNumber year month day * 86400 + time - offset
  if ! isYear year || ! isYear (yearOf (seconds / 86400)) then none
  return ⟨seconds, if leap then nanos + 1000000000 else nanos⟩

end Timestamp

end DocComments
