import Parley.Stand.Programs.Escape
import Parley.Text.Numeral

/-!
# Integer expressions

Expressions of integers in 64 bits, with names for values. The operators bind in levels; those of
one level group from the left.
-/

set_option autoImplicit false

namespace Parley.Shell.Sum

def wrap (n : Int) : Int := n.bmod (Nat.pow 2 64)

def truth (b : Bool) : Int := if b then 1 else 0

/-- The operators with two sides, from the level that binds least. -/
def levels : List (List (String × (Int → Int → Option Int))) :=
  [[("||", fun a b => some (truth (a ≠ 0 || b ≠ 0)))],
    [("&&", fun a b => some (truth (a ≠ 0 && b ≠ 0)))],
    [("|", fun a b => some (Int.ofNat ((a % Nat.pow 2 64).toNat ||| (b % Nat.pow 2 64).toNat)))],
    [("^", fun a b => some (Int.ofNat ((a % Nat.pow 2 64).toNat ^^^ (b % Nat.pow 2 64).toNat)))],
    [("&", fun a b => some (Int.ofNat ((a % Nat.pow 2 64).toNat &&& (b % Nat.pow 2 64).toNat)))],
    [("==", fun a b => some (truth (a = b))), ("!=", fun a b => some (truth (a ≠ b)))],
    [("<=", fun a b => some (truth (a ≤ b))), (">=", fun a b => some (truth (b ≤ a))),
      ("<", fun a b => some (truth (a < b))), (">", fun a b => some (truth (b < a)))],
    [("<<", fun a b => some (a * Nat.pow 2 (b % 64).toNat)),
      (">>", fun a b => some (a / Nat.pow 2 (b % 64).toNat))],
    [("+", fun a b => some (a + b)), ("-", fun a b => some (a - b))],
    [("*", fun a b => some (a * b)),
      ("/", fun a b => if b = 0 then none else some (a.tdiv b)),
      ("%", fun a b => if b = 0 then none else some (a.tmod b))]]

/-- The operators by length, so that the longest one is found. -/
def operators : List String :=
  let names := levels.flatten.map Prod.fst
  names.filter (·.length = 2) ++ names.filter (·.length = 1)

def skipBlanks (cs : List Char) : List Char :=
  cs.dropWhile fun c => c = ' ' || c = '\t' || c = '\n'

def operator? (cs : List Char) : Option (String × List Char) :=
  (operators.find? fun o => o.toList.isPrefixOf cs).map fun o => (o, cs.drop o.length)

/-- A number: hexadecimal after `0x`, octal after a zero. -/
def literal (cs : List Char) : Option (Int × List Char) :=
  let (base, value?, cs) := match cs with
    | '0' :: 'x' :: r | '0' :: 'X' :: r => (16, Text.hexValue?, r)
    | '0' :: r => (8, Programs.octalValue?, '0' :: r)
    | r => (10, fun c : Char => if c.isDigit then some (Text.digitValue c) else none, r)
  match Programs.digitsOf value? cs.length cs with
  | ([], _) => none
  | (ds, rest) => some (Programs.ofDigits base ds, rest)

/-- The number that a value denotes; an empty one is zero. -/
def valueOf? (s : String) : Option Int :=
  match s.toList.dropWhile (fun c => c = ' ' || c = '\t' || c = '\n') with
  | [] => some 0
  | '-' :: cs =>
    match literal cs with
    | some (n, []) => some (-n)
    | _ => none
  | cs =>
    match literal (if cs.head? = some '+' then cs.drop 1 else cs) with
    | some (n, []) => some n
    | _ => none

mutual

/-- An expression of operators from a level on. -/
def expression (value : String → Option String) : Nat → Nat → List Char → Option (Int × List Char)
  | 0, _, _ => none
  | fuel + 1, level, cs =>
    if level < levels.length then
      match expression value fuel (level + 1) cs with
      | some (left, rest) => operands value fuel level left rest
      | none => none
    else operand value fuel (skipBlanks cs)

def operands (value : String → Option String) :
    Nat → Nat → Int → List Char → Option (Int × List Char)
  | 0, _, _, _ => none
  | fuel + 1, level, left, cs =>
    let cs := skipBlanks cs
    match operator? cs with
    | none => some (left, cs)
    | some (o, rest) =>
      match (levels[level]?.getD []).lookup o with
      | none => some (left, cs)
      | some apply =>
        match expression value fuel (level + 1) rest with
        | none => none
        | some (right, rest) =>
          match apply left right with
          | none => none
          | some n => operands value fuel level (wrap n) rest

/-- A number, a name, an expression in parentheses, or a sign and what it stands before. -/
def operand (value : String → Option String) : Nat → List Char → Option (Int × List Char)
  | 0, _ => none
  | fuel + 1, cs =>
    match cs with
    | '(' :: rest =>
      match expression value fuel 0 rest with
      | some (n, rest) =>
        match skipBlanks rest with
        | ')' :: rest => some (n, rest)
        | _ => none
      | none => none
    | '-' :: rest => (operand value fuel (skipBlanks rest)).map fun (n, r) => (wrap (-n), r)
    | '+' :: rest => operand value fuel (skipBlanks rest)
    | '~' :: rest => (operand value fuel (skipBlanks rest)).map fun (n, r) => (-n - 1, r)
    | '!' :: rest => (operand value fuel (skipBlanks rest)).map fun (n, r) => (truth (n = 0), r)
    | cs =>
      match cs.span fun c => c.isAlphanum || c = '_' with
      | ([], _) => none
      | (c :: name, rest) =>
        if c.isDigit then literal cs
        else (valueOf? ((value (String.ofList (c :: name))).getD "")).map (·, rest)

end

/-- The value of an expression; `value` gives the values of names. None if it is malformed or
divides by zero. -/
def evaluate? (value : String → Option String) (cs : List Char) : Option Int :=
  if (skipBlanks cs).isEmpty then some 0
  else
    match expression value (16 * cs.length + 32) 0 cs with
    | some (n, rest) => if (skipBlanks rest).isEmpty then some n else none
    | none => none

end Parley.Shell.Sum
