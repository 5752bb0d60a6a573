import Parley.Text.Blank
import Parley.Text.Numeral

/-!
# Points in time

A point in time as date and time of day, and its text: the date, a `T`, the time, a fraction of as
many groups of three digits as needed, and a `Z`. Reading is relaxed: blanks before numbers and
separators, one digit where two are usual, other offsets, and more digits of the fraction than are
kept.
-/

set_option autoImplicit false

namespace Parley

/-- A point in time in UTC. Second 60 is a leap second and may follow any minute. -/
structure Timestamp where
  year : Int
  month : Nat
  day : Nat
  hour : Nat
  minute : Nat
  second : Nat
  nanos : Nat
  deriving DecidableEq, Repr

namespace Timestamp

/-! ## The calendar -/

def isLeap (year : Int) : Bool := year % 4 == 0 && (year % 100 != 0 || year % 400 == 0)

def daysIn (year : Int) (month : Nat) : Nat :=
  if month == 2 then if isLeap year then 29 else 28
  else if month == 4 || month == 6 || month == 9 || month == 11 then 30
  else 31

def minYear : Int := -262143
def maxYear : Int := 262142

/-- The fields stand for a date and a time of day. -/
def isValid (t : Timestamp) : Bool :=
  minYear ≤ t.year && t.year ≤ maxYear && 1 ≤ t.month && t.month ≤ 12 &&
    1 ≤ t.day && t.day ≤ daysIn t.year t.month && t.hour ≤ 23 && t.minute ≤ 59 &&
    t.second ≤ 60 && t.nanos < 1000000000

def nextDay (t : Timestamp) : Timestamp :=
  if t.day < daysIn t.year t.month then { t with day := t.day + 1 }
  else if t.month < 12 then { t with month := t.month + 1, day := 1 }
  else { t with year := t.year + 1, month := 1, day := 1 }

def previousDay (t : Timestamp) : Timestamp :=
  if 1 < t.day then { t with day := t.day - 1 }
  else if 1 < t.month then
    { t with month := t.month - 1, day := daysIn t.year (t.month - 1) }
  else { t with year := t.year - 1, month := 12, day := 31 }

def earlier (t : Timestamp) (minutes : Int) : Timestamp :=
  let total : Int := t.hour * 60 + t.minute - minutes
  let day := if total < 0 then t.previousDay else if 1440 ≤ total then t.nextDay else t
  let inDay := (total % 1440).toNat
  { day with hour := inDay / 60, minute := inDay % 60 }

/-- The date that many days after the first of January 1970, at midnight. -/
def ofDays (days : Nat) : Timestamp :=
  let z := days + 719468
  let era := z / 146097
  let doe := z % 146097
  let yoe := (doe - doe / 1460 + doe / 36524 - doe / 146096) / 365
  let doy := doe - (365 * yoe + yoe / 4 - yoe / 100)
  let mp := (5 * doy + 2) / 153
  let month := if mp < 10 then mp + 3 else mp - 9
  { year := (yoe + era * 400 : Nat) + (if month ≤ 2 then 1 else 0), month := month
    day := doy - (153 * mp + 2) / 5 + 1, hour := 0, minute := 0, second := 0, nanos := 0 }

/-- The point in time that many milliseconds after the start of 1970. -/
def ofMillis (ms : Nat) : Timestamp :=
  let s := ms / 1000
  { ofDays (s / 86400) with
    hour := s / 3600 % 24, minute := s / 60 % 60, second := s % 60, nanos := ms % 1000 * 1000000 }

/-! ## Writing -/

def padded (width n : Nat) : List Char :=
  let ds := Nat.toDigits 10 n
  List.replicate (width - ds.length) '0' ++ ds

/-- Years outside 0 to 9999 are written with a sign. -/
def yearChars (year : Int) : List Char :=
  if year < 0 then '-' :: padded 4 year.natAbs
  else if year ≤ 9999 then padded 4 year.natAbs
  else '+' :: padded 4 year.natAbs

/-- The fraction of a second, in groups of three digits. -/
def fractionChars (nanos : Nat) : List Char :=
  if nanos = 0 then []
  else if nanos % 1000000 = 0 then '.' :: padded 3 (nanos / 1000000)
  else if nanos % 1000 = 0 then '.' :: padded 6 (nanos / 1000)
  else '.' :: padded 9 nanos

def chars (t : Timestamp) : List Char :=
  yearChars t.year ++ '-' :: padded 2 t.month ++ '-' :: padded 2 t.day ++ 'T' :: padded 2 t.hour ++
    ':' :: padded 2 t.minute ++ ':' :: padded 2 t.second ++ fractionChars t.nanos ++ ['Z']

def render (t : Timestamp) : String := String.ofList t.chars

/-! ## Reading -/

def number? (most : Nat) (cs : List Char) : Option (Nat × List Char) :=
  let ds := (cs.takeWhile Char.isDigit).take most
  if ds.isEmpty then none
  else some (ds.foldl (fun n c => n * 10 + Text.digitValue c) 0, cs.drop ds.length)

def field? (most : Nat) (cs : List Char) : Option (Nat × List Char) :=
  number? most (Text.trimStartChars cs)

/-- A year after blanks: four digits, or any number of them after a sign. -/
def year? (cs : List Char) : Option (Int × List Char) :=
  match Text.trimStartChars cs with
  | '-' :: rest => (number? rest.length rest).map fun (n, r) => (-(n : Int), r)
  | '+' :: rest => (number? rest.length rest).map fun (n, r) => ((n : Int), r)
  | rest => (number? 4 rest).map fun (n, r) => ((n : Int), r)

/-- The rest after blanks and the separator `c`. -/
def separator? (c : Char) (cs : List Char) : Option (List Char) :=
  match Text.trimStartChars cs with
  | d :: rest => if d = c then some rest else none
  | [] => none

/-- The nanoseconds after the point of a fraction: nine digits count, the rest are passed over. -/
def fraction? (cs : List Char) : Option (Nat × List Char) :=
  match cs with
  | '.' :: rest =>
    let ds := rest.takeWhile Char.isDigit
    (number? 9 rest).map fun (n, _) =>
      (n * Nat.pow 10 (9 - min 9 ds.length), rest.drop ds.length)
  | _ => some (0, cs)

def twoDigits? : List Char → Option (Nat × List Char)
  | a :: b :: rest =>
    if a.isDigit && b.isDigit then some (Text.digitValue a * 10 + Text.digitValue b, rest) else none
  | _ => none

/-- The offset from UTC in minutes, up to a day. -/
def offset? (cs : List Char) : Option (Int × List Char) :=
  match cs with
  | u :: t :: c :: rest =>
    if u.toUpper = 'U' && t.toUpper = 'T' && c.toUpper = 'C' then some (0, rest) else signed? cs
  | _ => signed? cs
where
  signed? (cs : List Char) : Option (Int × List Char) :=
    match cs with
    | 'Z' :: rest | 'z' :: rest => some (0, rest)
    | '+' :: rest => amount? 1 rest
    | '-' :: rest | '\u2212' :: rest => amount? (-1) rest
    | _ => none
  amount? (sign : Int) (cs : List Char) : Option (Int × List Char) := do
    let (hours, rest) ← twoDigits? cs
    let (minutes, rest) ← twoDigits? (rest.dropWhile fun c => c == ':' || Text.isBlank c)
    if minutes ≤ 59 && hours < 24 then some (sign * (hours * 60 + minutes), rest) else none

def ofChars? (cs : List Char) : Option Timestamp := do
  let (year, cs) ← year? cs
  let cs ← separator? '-' cs
  let (month, cs) ← field? 2 cs
  let cs ← separator? '-' cs
  let (day, cs) ← field? 2 cs
  let cs ← match cs with
    | 'T' :: r | 't' :: r | ' ' :: r => some r
    | _ => none
  let (hour, cs) ← field? 2 cs
  let cs ← separator? ':' cs
  let (minute, cs) ← field? 2 cs
  let cs ← separator? ':' cs
  let (second, cs) ← field? 2 cs
  let (nanos, cs) ← fraction? cs
  let (offset, cs) ← offset? (Text.trimStartChars cs)
  let here : Timestamp := ⟨year, month, day, hour, minute, second, nanos⟩
  let there := here.earlier offset
  if (Text.trimStartChars cs).isEmpty && here.isValid && there.isValid then some there else none

def parse? (s : String) : Option Timestamp := ofChars? s.toList

end Timestamp
end Parley
