import Parley.Document.Basic
import Parley.Message.Timestamp
import Parley.Text.Hexadecimal
import Parley.Text.Magnitude

/-!
# Unquoted values

Truth values, integers in four radices, numbers with a fraction or an exponent, dates and times. No
setting is a fraction or a date; such a value is only checked.
-/

set_option autoImplicit false

namespace Parley.Document

/-! ## Digits -/

def isDigitIn (radix : Nat) (c : Char) : Bool := (Text.hexValue? c).any (· < radix)

/-- The digits of a numeral, in which single underscores may stand between digits. -/
def digits? (radix : Nat) : List Char → Option (List Char)
  | [] => none
  | [c] => if isDigitIn radix c then some [c] else none
  | c :: '_' :: cs =>
    if isDigitIn radix c then (digits? radix cs).map (c :: ·) else none
  | c :: cs => if isDigitIn radix c then (digits? radix cs).map (c :: ·) else none

def numberOf (radix : Nat) (ds : List Char) : Nat :=
  ds.foldl (fun n c => n * radix + (Text.hexValue? c).getD 0) 0

/-- The digits of a decimal numeral, which has no zero before other digits. -/
def decimalDigits? (cs : List Char) : Option (List Char) :=
  match digits? 10 cs with
  | some ('0' :: _ :: _) => none
  | ds => ds

def sign : List Char → Bool × List Char
  | '-' :: cs => (true, cs)
  | '+' :: cs => (false, cs)
  | cs => (false, cs)

/-! ## Integers -/

/-- Integers fit into 128 bits, with a sign or without. -/
def minInt : Int := -Nat.pow 2 127
def maxInt : Int := Nat.pow 2 128 - 1

/-- An integer. Only a decimal one has a sign. -/
def integer? (cs : List Char) : Option Int :=
  let value : Option Int :=
    match cs with
    | '0' :: 'x' :: ds => (digits? 16 ds).map (numberOf 16 ·)
    | '0' :: 'o' :: ds => (digits? 8 ds).map (numberOf 8 ·)
    | '0' :: 'b' :: ds => (digits? 2 ds).map (numberOf 2 ·)
    | cs =>
      let (negative, body) := sign cs
      (decimalDigits? body).map fun ds =>
        let n : Int := numberOf 10 ds
        if negative then -n else n
  value.filter fun n => minInt ≤ n && n ≤ maxInt

/-! ## Numbers with a fraction or an exponent -/

/-- Whether `digits` times ten to the power `exponent` is finite; `count` bounds the number of the
digits. -/
def isFinite (digits count : Nat) (exponent : Int) : Bool :=
  if digits = 0 then true
  else if 309 ≤ exponent then false
  else if 0 ≤ exponent then digits * Nat.pow 10 exponent.toNat < Text.overflowBound
  else if (count : Int) + exponent ≤ 308 then true
  else digits < Text.overflowBound * Nat.pow 10 (-exponent).toNat

def exponent? : List Char → Option Int
  | [] => some 0
  | c :: cs =>
    if c = 'e' || c = 'E' then
      let (negative, body) := sign cs
      (digits? 10 body).map fun ds =>
        let n : Int := numberOf 10 ds
        if negative then -n else n
    else none

def isExponentMark (c : Char) : Bool := c == 'e' || c == 'E'

/-- Whether the text is a number with a fraction or an exponent that is finite, or one of the words
for infinity and for no number. -/
def isFraction (cs : List Char) : Bool :=
  let (_, body) := sign cs
  if body = ['i', 'n', 'f'] || body = ['n', 'a', 'n'] then true
  else
    let (whole, rest) := body.span fun c => c != '.' && !isExponentMark c
    match decimalDigits? whole, rest with
    | none, _ | _, [] => false
    | some ds, '.' :: rest =>
      let (fraction, rest) := rest.span fun c => !isExponentMark c
      match digits? 10 fraction, exponent? rest with
      | some fs, some e =>
        let all := ds ++ fs
        isFinite (numberOf 10 all) all.length (e - (fs.length : Int))
      | _, _ => false
    | some ds, rest =>
      match exponent? rest with
      | some e => isFinite (numberOf 10 ds) ds.length e
      | none => false

/-! ## Dates and times -/

def fixed? (n : Nat) (cs : List Char) : Option (Nat × List Char) :=
  let ds := cs.take n
  if ds.length = n && ds.all Char.isDigit && !(cs.drop n).head?.any Char.isDigit then
    some (numberOf 10 ds, cs.drop n)
  else none

def afterDate? (cs : List Char) : Option (List Char) :=
  match fixed? 4 cs with
  | some (year, '-' :: rest) =>
    match fixed? 2 rest with
    | some (month, '-' :: rest) =>
      match fixed? 2 rest with
      | some (day, rest) =>
        if 1 ≤ month && month ≤ 12 && 1 ≤ day && day ≤ Timestamp.daysIn year month then some rest
        else none
      | none => none
    | _ => none
  | _ => none

def afterMinutes? (cs : List Char) : Option (List Char) :=
  match fixed? 2 cs with
  | some (hour, ':' :: rest) =>
    match fixed? 2 rest with
    | some (minute, rest) => if hour ≤ 23 && minute ≤ 59 then some rest else none
    | none => none
  | _ => none

/-- The rest after a fraction of a second, which may be missing. -/
def afterSplitSecond? : List Char → Option (List Char)
  | '.' :: cs =>
    if cs.head?.any Char.isDigit then some (cs.dropWhile Char.isDigit) else none
  | cs => some cs

/-- The rest after a time of day; seconds may be missing, and 60 is one of them. -/
def afterTime? (cs : List Char) : Option (List Char) :=
  match afterMinutes? cs with
  | some (':' :: rest) =>
    match fixed? 2 rest with
    | some (second, rest) => if second ≤ 60 then afterSplitSecond? rest else none
    | none => none
  | found => found

/-- Whether the text is a difference to universal time, or nothing. -/
def isOffset : List Char → Bool
  | [] => true
  | c :: cs =>
    if c = 'Z' || c = 'z' then cs.isEmpty
    else (c = '+' || c = '-') && (afterMinutes? cs).any (·.isEmpty)

def isDateTime (cs : List Char) : Bool :=
  match afterDate? cs with
  | some [] => true
  | some (c :: rest) => (c = 'T' || c = 't' || c = ' ') && (afterTime? rest).any isOffset
  | none => (afterTime? cs).any (·.isEmpty)

/-! ## Values -/

def scalar? (cs : List Char) : Option Node :=
  if cs = ['t', 'r', 'u', 'e'] then some (.bool true)
  else if cs = ['f', 'a', 'l', 's', 'e'] then some (.bool false)
  else match integer? cs with
    | some n => some (.int n)
    | none => if isFraction cs || isDateTime cs then some .other else none

def endsScalar (c : Char) : Bool :=
  c ∈ [' ', '\t', '\n', '\r', ',', '=', '[', ']', '\x7b', '\x7d', '#']

/-- The unquoted text at the start. A blank between a date and a time belongs to it. -/
def scalarText (cs : List Char) : List Char × List Char :=
  let (run, rest) := cs.span fun c => !endsScalar c
  match rest with
  | ' ' :: c :: more =>
    if c.isDigit && (afterDate? run).any (·.isEmpty) then
      let (time, rest) := (c :: more).span fun c => !endsScalar c
      (run ++ ' ' :: time, rest)
    else (run, rest)
  | _ => (run, rest)

def readScalar? (cs : List Char) : Option (Node × List Char) :=
  let (run, rest) := scalarText cs
  (scalar? run).map fun v => (v, rest)

end Parley.Document
