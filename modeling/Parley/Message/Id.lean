import Parley.Text.Hexadecimal

/-!
# Message identifiers

An identifier is 32 hexadecimal digits. It is written in five groups joined by hyphens, in small
letters, and may be read in that form, without the hyphens, in braces, or as a `urn`.
-/

set_option autoImplicit false

namespace Parley

/-- The identifier of a message: 128 bits. -/
structure MessageId where
  bits : BitVec 128
  deriving DecidableEq, Repr

namespace MessageId

def groups : List Nat := [8, 4, 4, 4, 12]

/-- Digits cut into groups of the given lengths, with hyphens between them. -/
def hyphenate : List Nat → List Char → List Char
  | [], _ => []
  | [n], ds => ds.take n
  | n :: m :: ns, ds => ds.take n ++ '-' :: hyphenate (m :: ns) (ds.drop n)

def chars (i : MessageId) : List Char := hyphenate groups (Text.hexDigits 32 i.bits.toNat)

def render (i : MessageId) : String := String.ofList i.chars

/-- The digits of a text in groups of the given lengths with hyphens between them. -/
def ungroup? : List Nat → List Char → Option (List Char)
  | [], [] => some []
  | [], _ => none
  | [n], cs => if cs.length = n then some cs else none
  | n :: m :: ns, cs =>
    match cs.drop n with
    | '-' :: rest => (ungroup? (m :: ns) rest).map (cs.take n ++ ·)
    | _ => none

def ofDigits? (ds : List Char) : Option MessageId :=
  if ds.length = 32 then (Text.hexNumber? 0 ds).map fun n => ⟨BitVec.ofNat 128 n⟩ else none

def ofGrouped? (cs : List Char) : Option MessageId := (ungroup? groups cs).bind ofDigits?

def after? : List Char → List Char → Option (List Char)
  | [], cs => some cs
  | _ :: _, [] => none
  | s :: ss, c :: cs => if s = c then after? ss cs else none

/-- The identifier that a text denotes, in one of the four forms. -/
def ofChars? (cs : List Char) : Option MessageId :=
  if cs.length = 32 then ofDigits? cs
  else if cs.length = 36 then ofGrouped? cs
  else if cs.length = 38 && cs.head? = some '\x7b' && cs.getLast? = some '\x7d' then
    ofGrouped? (cs.drop 1).dropLast
  else (after? "urn:uuid:".toList cs).bind fun rest =>
    if rest.length = 36 then ofGrouped? rest else none

def parse? (s : String) : Option MessageId := ofChars? s.toList

end MessageId
end Parley
