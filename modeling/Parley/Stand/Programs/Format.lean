import Parley.Stand.Programs.Escape
import Parley.Stand.Programs.Process
import Parley.Text.Numeral

/-!
# Printing in a format

A format is a text in which a percent sign opens a directive: the next argument is printed as a
text, a character or a number. A format is used again as long as there are arguments left.
-/

set_option autoImplicit false

namespace Parley.Programs

/-- How programs differ that print in a format. -/
structure FormatRules where
  format : EscapeRules
  argument : EscapeRules
  /-- The status after a directive that means nothing. -/
  invalid : Nat
  /-- What a kind of value has no use for may not be asked for. -/
  strict : Bool := false

structure Directive where
  flags : List Char := []
  width : Option Nat := none
  precision : Option Nat := none

/-- Whether a kind of value may be printed as a directive says. -/
def FormatRules.allows (r : FormatRules) (d : Directive) (kind : Char) : Bool :=
  !r.strict ||
    match kind with
    | 's' => !d.flags.contains '#' && !d.flags.contains '0'
    | 'c' => !d.flags.contains '#' && !d.flags.contains '0' && d.precision.isNone
    | 'd' | 'i' | 'u' => !d.flags.contains '#'
    | 'b' => d.flags.isEmpty && d.width.isNone && d.precision.isNone
    | _ => true

structure Formatted where
  bytes : List UInt8 := []
  arguments : List String
  asked : Bool := false
  status : Nat := 0
  stopped : Bool := false

namespace Directive

def isLeft (d : Directive) : Bool := d.flags.contains '-'

def pad (d : Directive) (bs : List UInt8) : List UInt8 :=
  let fill := List.replicate (d.width.getD 0 - bs.length) 32
  if d.isLeft then bs ++ fill else fill ++ bs

/-- A text, of which the precision is the most bytes. -/
def text (d : Directive) (bs : List UInt8) : List UInt8 :=
  d.pad (match d.precision with
    | some n => bs.take n
    | none => bs)

/-- Digits after a sign. The precision is the least number of digits; without one zeros may fill up
to the width. -/
def number (d : Directive) (sign digits : List Char) : List UInt8 :=
  let zeros := match d.precision with
    | some n => n - digits.length
    | none =>
      if d.flags.contains '0' && !d.isLeft then d.width.getD 0 - (sign.length + digits.length)
      else 0
  let digits := if d.precision = some 0 && digits = ['0'] then [] else digits
  d.pad ((sign ++ List.replicate zeros '0' ++ digits).flatMap charBytes)

def signed (d : Directive) (n : Int) : List UInt8 :=
  let sign :=
    if n < 0 then ['-']
    else if d.flags.contains '+' then ['+']
    else if d.flags.contains ' ' then [' ']
    else []
  d.number sign (toString n.natAbs).toList

/-- A number without sign, in 64 bits. -/
def unsigned (d : Directive) (kind : Char) (n : Int) : List UInt8 :=
  let value := (n % Nat.pow 2 64).toNat
  let alternate := d.flags.contains '#'
  match kind with
  | 'o' =>
    let digits := Nat.toDigits 8 value
    if alternate then
      { d with precision := d.precision.map (max 1) }.number []
        (if digits = ['0'] then digits else '0' :: digits)
    else d.number [] digits
  | 'x' =>
    d.number (if alternate && value ≠ 0 then ['0', 'x'] else []) (Nat.toDigits 16 value)
  | 'X' =>
    d.number (if alternate && value ≠ 0 then ['0', 'X'] else [])
      ((Nat.toDigits 16 value).map Char.toUpper)
  | _ => d.number [] (toString value).toList

end Directive

/-- The number that an argument starts with, and whether that is all of it. A quote stands before a
character whose code is meant. -/
def leadingNumber (s : String) : Int × Bool :=
  match s.toList with
  | [] => (0, true)
  | '\'' :: c :: _ | '"' :: c :: _ => (c.toNat, true)
  | cs =>
    let cs := cs.dropWhile (· = ' ')
    let (minus, cs) := match cs with
      | '-' :: r => (true, r)
      | '+' :: r => (false, r)
      | r => (false, r)
    let (base, value?, cs) := match cs with
      | '0' :: 'x' :: r => (16, Text.hexValue?, r)
      | '0' :: r => (8, octalValue?, '0' :: r)
      | r => (10, fun c : Char => if c.isDigit then some (Text.digitValue c) else none, r)
    let (ds, rest) := digitsOf value? cs.length cs
    let n : Int := ofDigits base ds
    (if minus then -n else n, !ds.isEmpty && rest.isEmpty)

namespace Formatted

def put (f : Formatted) (bs : List UInt8) : Formatted := { f with bytes := f.bytes ++ bs }

def fail (f : Formatted) (status : Nat) : Formatted := { f with status }

def take (f : Formatted) : String × Formatted :=
  match f.arguments with
  | [] => ("", { f with asked := true })
  | a :: rest => (a, { f with arguments := rest, asked := true })

/-- Takes the next argument as a number between two bounds. -/
def takeNumber (f : Formatted) (low high : Int) : Int × Formatted :=
  let (a, next) := f.take
  let (n, whole) := leadingNumber a
  (max low (min n high), if whole && low ≤ n && n ≤ high then next else next.fail 1)

def stop (f : Formatted) (r : FormatRules) : Formatted :=
  { f with stopped := true, status := if r.strict then 0 else f.status }

/-- Prints the next argument as one kind of value. A kind that means nothing ends the output. -/
def convert (f : Formatted) (r : FormatRules) (d : Directive) (kind : Char) : Formatted :=
  if !r.allows d kind then { f.fail r.invalid with stopped := true }
  else if kind ∈ ['d', 'i'] then
    let (n, next) := f.takeNumber (-Nat.pow 2 63) (Nat.pow 2 63 - 1)
    next.put (d.signed n)
  else if kind ∈ ['o', 'u', 'x', 'X'] then
    let (n, next) := f.takeNumber (1 - Nat.pow 2 64) (Nat.pow 2 64 - 1)
    next.put (d.unsigned kind n)
  else
    let (a, next) := f.take
    match kind with
    | 's' => next.put (d.text (Text.toBytes a))
    | 'c' => next.put (d.pad [(Text.toBytes a).head?.getD 0])
    | 'b' =>
      let e := r.argument.expand a
      let next := next.put (d.text e.bytes)
      if e.failed then { next.fail 1 with stopped := true }
      else if e.stopped then next.stop r
      else next
    | _ => { f.fail r.invalid with stopped := true }

def maxCount : Int := Nat.pow 2 31 - 1

/-- A width or a precision: digits, or a star for the next argument. One that is below `low` or too
great ends the output. -/
def takeCount (f : Formatted) (low : Int) : List Char → Option Int × Formatted × List Char
  | '*' :: cs =>
    let (n, next) := f.takeNumber (-Nat.pow 2 63) (Nat.pow 2 63 - 1)
    if n < low || maxCount < n then (none, { next.fail 1 with stopped := true }, cs)
    else (some n, next, cs)
  | cs =>
    match cs.span Char.isDigit with
    | ([], rest) => (none, f, rest)
    | (ds, rest) => (some (ofDigits 10 (ds.map Text.digitValue)), f, rest)

/-- The directive after a percent sign, and what follows it. A width below zero asks for blanks on
the right; a precision below zero counts as none. -/
def directive (f : Formatted) (cs : List Char) : Directive × Formatted × List Char :=
  let (flags, cs) := cs.span (['-', '+', ' ', '0', '#'].contains ·)
  let (width, f, cs) := f.takeCount (-maxCount) cs
  let flags := if width.any (· < 0) then '-' :: flags else flags
  let width := width.map Int.natAbs
  match cs with
  | '.' :: cs =>
    let (precision, f, cs) := f.takeCount (-Nat.pow 2 63) cs
    let n := precision.getD 0
    ({ flags, width, precision := if n < 0 then none else some n.toNat }, f, cs)
  | cs => ({ flags, width }, f, cs)

/-- One use of a format; `fuel` bounds the number of its characters. -/
def use (r : FormatRules) : Nat → Formatted → List Char → Formatted
  | 0, f, _ | _, f, [] => f
  | fuel + 1, f, c :: cs =>
    if f.stopped then f
    else if c = '%' then
      match cs with
      | '%' :: cs => use r fuel (f.put [37]) cs
      | cs =>
        match f.directive cs with
        | (d, f, kind :: cs) => if f.stopped then f else use r fuel (f.convert r d kind) cs
        | (_, f, []) => { f.fail r.invalid with stopped := true }
    else if c = '\\' then
      match r.format.escape cs with
      | .bytes bs cs => use r fuel (f.put bs) cs
      | .stop => f.stop r
      | .broken => { f.fail 1 with stopped := true }
    else use r fuel (f.put (charBytes c)) cs

/-- Uses a format until no argument is left; `fuel` bounds the number of arguments. -/
def useAll (r : FormatRules) (format : String) : Nat → Formatted → Formatted
  | 0, f => f
  | fuel + 1, f =>
    let next := use r (format.length + 1) { f with asked := false } format.toList
    if next.asked && !next.arguments.isEmpty && !next.stopped then useAll r format fuel next
    else next

end Formatted

def printf (r : FormatRules) : Program := fun p arguments =>
  match arguments with
  | [] => p.fail r.invalid "printf: missing operand"
  | format :: rest =>
    let f := Formatted.useAll r format (rest.length + 1) { arguments := rest }
    { p with status := f.status }.print 1 f.bytes

end Parley.Programs
