import Parley.Text.Hexadecimal
import Parley.Value.Basic

/-!
# Writing values

The compact form of a value: no blanks, the shortest escapes, all other characters as they are.
-/

set_option autoImplicit false

namespace Parley.Value

/-- A character inside a quoted text: quotes, backslashes and control characters are escaped. -/
def escapeChar (c : Char) : List Char :=
  if c = '"' then ['\\', '"']
  else if c = '\\' then ['\\', '\\']
  else if c = '\x08' then ['\\', 'b']
  else if c = '\x0c' then ['\\', 'f']
  else if c = '\n' then ['\\', 'n']
  else if c = '\r' then ['\\', 'r']
  else if c = '\t' then ['\\', 't']
  else if c.toNat < 0x20 then
    ['\\', 'u', '0', '0', Text.hexDigit (c.toNat / 16), Text.hexDigit (c.toNat % 16)]
  else [c]

def quoteChars (s : String) : List Char := '"' :: s.toList.flatMap escapeChar ++ ['"']

def intChars (n : Int) : List Char :=
  if n < 0 then '-' :: Nat.toDigits 10 n.natAbs else Nat.toDigits 10 n.natAbs

mutual

/-- The compact form of a value. -/
def chars : Value → List Char
  | null => ['n', 'u', 'l', 'l']
  | bool true => ['t', 'r', 'u', 'e']
  | bool false => ['f', 'a', 'l', 's', 'e']
  | int n => intChars n
  | text s => quoteChars s
  | list [] => ['[', ']']
  | list (v :: rest) => '[' :: chars v ++ itemChars rest
  | object [] => ['\x7b', '\x7d']
  | object ((k, v) :: rest) => '\x7b' :: quoteChars k ++ ':' :: chars v ++ fieldChars rest

/-- The items after the first one, and the closing bracket. -/
def itemChars : List Value → List Char
  | [] => [']']
  | v :: rest => ',' :: chars v ++ itemChars rest

/-- The fields after the first one, and the closing brace. -/
def fieldChars : List (String × Value) → List Char
  | [] => ['\x7d']
  | (k, v) :: rest => ',' :: quoteChars k ++ ':' :: chars v ++ fieldChars rest

end

def render (v : Value) : String := String.ofList v.chars

end Parley.Value
