import Parley.Text.Bytes
import Parley.Text.Hexadecimal

/-!
# Escapes in what is printed

A backslash and what follows it stand for a byte. Programs agree on the letters and on octal digits;
`EscapeRules` holds what they do not agree on.
-/

set_option autoImplicit false

namespace Parley.Programs

/-- The escapes that not every program knows. -/
structure EscapeRules where
  /-- An `x` and hexadecimal digits. -/
  hexadecimal : Bool := false
  /-- A quote stands for itself, and an `x` must have digits. -/
  strict : Bool := false
  /-- A `c` ends all that is printed. -/
  stops : Bool := false
  /-- A zero may go before three more octal digits. -/
  zeroLeads : Bool := false

inductive Escaped
  | bytes (bs : List UInt8) (rest : List Char)
  | stop
  /-- Nothing more is printed, and the program fails. -/
  | broken

/-- The values of the digits at the start of a text, up to `limit` of them, and the rest. -/
def digitsOf (value? : Char → Option Nat) : Nat → List Char → List Nat × List Char
  | 0, cs => ([], cs)
  | _ + 1, [] => ([], [])
  | limit + 1, c :: cs =>
    match value? c with
    | some d => let (ds, rest) := digitsOf value? limit cs; (d :: ds, rest)
    | none => ([], c :: cs)

def ofDigits (base : Nat) (ds : List Nat) : Nat := ds.foldl (fun n d => n * base + d) 0

def octalValue? (c : Char) : Option Nat :=
  if '0' ≤ c && c ≤ '7' then some (c.toNat - '0'.toNat) else none

def letterByte? : Char → Option UInt8
  | 'a' => some 7
  | 'b' => some 8
  | 't' => some 9
  | 'n' => some 10
  | 'v' => some 11
  | 'f' => some 12
  | 'r' => some 13
  | 'e' => some 27
  | '\\' => some 92
  | _ => none

def charBytes (c : Char) : List UInt8 := Text.toBytes (String.singleton c)

/-- What follows a backslash. What is no escape stands for itself, with its backslash. -/
def EscapeRules.escape (r : EscapeRules) : List Char → Escaped
  | [] => .bytes [92] []
  | c :: cs =>
    match letterByte? c with
    | some b => .bytes [b] cs
    | none =>
      if (octalValue? c).isSome then
        let (ds, rest) := digitsOf octalValue? 3 (if c = '0' && r.zeroLeads then cs else c :: cs)
        .bytes [UInt8.ofNat (ofDigits 8 ds)] rest
      else if c = 'c' && r.stops then .stop
      else if c = '"' && r.strict then .bytes [34] cs
      else if c = 'x' && r.hexadecimal then
        match digitsOf Text.hexValue? 2 cs with
        | ([], _) => if r.strict then .broken else .bytes [92, 120] cs
        | (ds, rest) => .bytes [UInt8.ofNat (ofDigits 16 ds)] rest
      else .bytes (92 :: charBytes c) cs

structure Expanded where
  bytes : List UInt8 := []
  stopped : Bool := false
  failed : Bool := false

def Expanded.after (e : Expanded) (bs : List UInt8) : Expanded := { e with bytes := bs ++ e.bytes }

/-- What a text with escapes stands for; `fuel` bounds the number of its characters. -/
def EscapeRules.expandFrom (r : EscapeRules) : Nat → List Char → Expanded
  | 0, _ | _, [] => {}
  | fuel + 1, c :: cs =>
    if c = '\\' then
      match r.escape cs with
      | .bytes bs rest => (r.expandFrom fuel rest).after bs
      | .stop => { stopped := true }
      | .broken => { stopped := true, failed := true }
    else (r.expandFrom fuel cs).after (charBytes c)

def EscapeRules.expand (r : EscapeRules) (s : String) : Expanded :=
  r.expandFrom (s.length + 1) s.toList

end Parley.Programs
