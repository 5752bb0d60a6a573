import Parley.Text.Hexadecimal
import Parley.Text.Magnitude
import Parley.Text.Numeral
import Parley.Value.Basic

/-!
# Reading values

A reader for JSON texts that works from left to right and stops at the first fault: the text ends too
early, it is malformed, or it is well formed but not of the expected kind. Values nest to a bounded
depth; a value that is skipped may nest to any. A number that is no integer in range is read as
well, but there is no value for it, nor for what holds it.
-/

set_option autoImplicit false

namespace Parley.Value

/-- Why a text is not the value that was expected. -/
inductive ReadFault
  /-- The text ends in the middle of a value. -/
  | ended
  | malformed
  /-- A value, but of another kind than the one expected. -/
  | mismatched
  /-- What was expected, but with a number in it that is no integer in range. -/
  | fraction
  deriving DecidableEq, Repr

abbrev Read (α : Type) := Except ReadFault (α × List Char)

def isSpace (c : Char) : Bool := c == ' ' || c == '\n' || c == '\t' || c == '\r'

def skipSpace (cs : List Char) : List Char := cs.dropWhile isSpace

/-! ## Leaves -/

/-- The letters of a keyword, the first of which is read already. -/
def keyword : List Char → List Char → Except ReadFault (List Char)
  | [], cs => .ok cs
  | _ :: _, [] => .error .ended
  | k :: ks, c :: cs => if c = k then keyword ks cs else .error .malformed

/-- Four hexadecimal digits. Fewer than four bytes left count as an early end. -/
def hexQuad : List Char → Read Nat
  | a :: b :: c :: d :: rest =>
    match Text.hexValue? a, Text.hexValue? b, Text.hexValue? c, Text.hexValue? d with
    | some a, some b, some c, some d => .ok (((a * 16 + b) * 16 + c) * 16 + d, rest)
    | _, _, _, _ => .error .malformed
  | cs =>
    if (String.ofList cs).utf8ByteSize < 4 then .error .ended else .error .malformed

def joinHalves (high low : Nat) : Char :=
  Char.ofNat (0x10000 + (high - 0xD800) * 0x400 + (low - 0xDC00))

/-- The second half of a code point whose first half is `high`. -/
def lowHalf (high : Nat) : List Char → Read Char
  | '\\' :: 'u' :: rest =>
    match hexQuad rest with
    | .error f => .error f
    | .ok (low, rest) =>
      if 0xDC00 ≤ low && low ≤ 0xDFFF then .ok (joinHalves high low, rest) else .error .malformed
  | [] | ['\\'] => .error .ended
  | _ => .error .malformed

/-- What follows `\u` in a text. In a text that is skipped any four digits will do. -/
def unicodeEscape (skipping : Bool) (cs : List Char) : Read Char :=
  match hexQuad cs with
  | .error f => .error f
  | .ok (n, rest) =>
    if skipping then .ok (' ', rest)
    else if 0xDC00 ≤ n && n ≤ 0xDFFF then .error .malformed
    else if 0xD800 ≤ n && n ≤ 0xDBFF then lowHalf n rest
    else .ok (Char.ofNat n, rest)

def escape (skipping : Bool) : List Char → Read Char
  | [] => .error .ended
  | c :: cs =>
    match c with
    | '"' => .ok ('"', cs)
    | '\\' => .ok ('\\', cs)
    | '/' => .ok ('/', cs)
    | 'b' => .ok ('\x08', cs)
    | 'f' => .ok ('\x0c', cs)
    | 'n' => .ok ('\n', cs)
    | 'r' => .ok ('\r', cs)
    | 't' => .ok ('\t', cs)
    | 'u' => unicodeEscape skipping cs
    | _ => .error .malformed

/-- A text after its opening quote; `fuel` bounds the number of its characters, `done` holds those
read, in reverse. -/
def textBody (skipping : Bool) : Nat → List Char → List Char → Read String
  | 0, _, _ => .error .ended
  | _ + 1, _, [] => .error .ended
  | fuel + 1, done, c :: cs =>
    if c = '"' then .ok (String.ofList done.reverse, cs)
    else if c = '\\' then
      match escape skipping cs with
      | .error f => .error f
      | .ok (e, rest) => textBody skipping fuel (e :: done) rest
    else if c.toNat < 0x20 then .error .malformed
    else textBody skipping fuel (c :: done) cs

def quotedText (skipping : Bool) (cs : List Char) : Read String :=
  textBody skipping (cs.length + 1) [] cs

/-! ## Numbers -/

structure Numeral where
  negative : Bool
  whole : List Char
  /-- The digits after the point; at least one, if there is a point. -/
  fraction : List Char := []
  /-- Whether the exponent has a minus, and its digits. -/
  exponent : Option (Bool × List Char) := none

namespace Numeral

def digitsValue (ds : List Char) : Nat := ds.foldl (fun n c => n * 10 + Text.digitValue c) 0

/-- The least and the greatest integer that a number may be. -/
def minInt : Int := -Nat.pow 2 63
def maxInt : Int := Nat.pow 2 64 - 1

/-- The integer that is denoted: none by a number with a fraction, with an exponent or out of range,
nor by a zero with a minus. -/
def int? (n : Numeral) : Option Int :=
  if !n.fraction.isEmpty || n.exponent.isSome then none
  else
    let value : Int := digitsValue n.whole
    if n.negative then if value = 0 || -value < minInt then none else some (-value)
    else if maxInt < value then none else some value

/-- The number of the digits from `n` on as long as 64 bits hold it, and the digits left over. -/
def gather (n : Nat) : List Char → Nat × List Char
  | [] => (n, [])
  | c :: cs =>
    let next := n * 10 + Text.digitValue c
    if next < Nat.pow 2 64 then gather next cs else (n, c :: cs)

def writtenExponent (n : Numeral) : Int :=
  match n.exponent with
  | some (minus, ds) => if minus then -(digitsValue ds : Int) else digitsValue ds
  | none => 0

/-- Whether the number is beyond all that can be held. The first digits count, as many as 64 bits
hold; they and the power of ten that goes with them are rounded before they are multiplied. -/
def isTooLarge (n : Numeral) : Bool :=
  let (whole, left) := gather 0 n.whole
  let (digits, unused) := gather whole n.fraction
  let exponent : Int := left.length - (n.fraction.length - unused.length : Nat) + n.writtenExponent
  if digits = 0 || exponent < 0 then false
  else if 308 < exponent then true
  else Text.overflowBound ≤ Text.nearest digits * Text.nearest (Nat.pow 10 exponent.toNat)

end Numeral

/-- The digits at the start of a text, of which there must be one. In a number that is skipped an
early end counts as malformed. -/
def someDigits (skipping : Bool) (cs : List Char) : Read (List Char) :=
  match cs.span Char.isDigit with
  | ([], []) => .error (if skipping then .malformed else .ended)
  | ([], _) => .error .malformed
  | (ds, rest) => .ok (ds, rest)

/-- The digits before the point: no zero stands before other digits. -/
def wholePart (skipping : Bool) (cs : List Char) : Read (List Char) :=
  match someDigits skipping cs with
  | .ok ('0' :: _ :: _, _) => .error .malformed
  | found => found

def fractionPart (skipping : Bool) : List Char → Read (List Char)
  | '.' :: cs => someDigits skipping cs
  | cs => .ok ([], cs)

def exponentPart (skipping : Bool) : List Char → Read (Option (Bool × List Char))
  | c :: cs =>
    if c = 'e' || c = 'E' then
      let (minus, cs) := match cs with
        | '-' :: r => (true, r)
        | '+' :: r => (false, r)
        | r => (false, r)
      (someDigits skipping cs).map fun (ds, rest) => (some (minus, ds), rest)
    else .ok (none, c :: cs)
  | [] => .ok (none, [])

def numeral (skipping : Bool) (cs : List Char) : Read Numeral :=
  let (negative, body) := match cs with
    | '-' :: r => (true, r)
    | r => (false, r)
  match wholePart skipping body with
  | .error f => .error f
  | .ok (whole, rest) =>
    match fractionPart skipping rest with
    | .error f => .error f
    | .ok (fraction, rest) =>
      (exponentPart skipping rest).map fun (exponent, rest) =>
        ({ negative, whole, fraction, exponent }, rest)

/-- A number that is kept, if it is an integer in range; a number that is too large is refused. -/
def number (cs : List Char) : Read (Option Int) :=
  match numeral false cs with
  | .error f => .error f
  | .ok (n, rest) => if n.isTooLarge then .error .malformed else .ok (n.int?, rest)

/-! ## Values -/

/-- The colon between a key and its value, and the rest after it. -/
def colon (cs : List Char) : Except ReadFault (List Char) :=
  match skipSpace cs with
  | ':' :: rest => .ok rest
  | [] => .error .ended
  | _ => .error .malformed

/-- The start of the next item of a list, or `none` at its end. -/
def nextItem (first : Bool) (cs : List Char) : Except ReadFault (Option (List Char) × List Char) :=
  match skipSpace cs with
  | [] => .error .ended
  | ']' :: rest => .ok (none, rest)
  | c :: rest =>
    if first then .ok (some (c :: rest), [])
    else if c = ',' then
      match skipSpace rest with
      | [] => .error .ended
      | ']' :: _ => .error .malformed
      | r => .ok (some r, [])
    else .error .malformed

/-- The start of the next key of an object, after its quote, or `none` before its closing brace. -/
def nextKey (first : Bool) (cs : List Char) : Except ReadFault (Option (List Char) × List Char) :=
  match skipSpace cs with
  | [] => .error .ended
  | '\x7d' :: rest => .ok (none, '\x7d' :: rest)
  | c :: rest =>
    let start := if first then some (c :: rest)
      else if c = ',' then some (skipSpace rest) else none
    match start with
    | some ('"' :: r) => .ok (some r, [])
    | some [] => .error .ended
    | _ => .error .malformed

/-- The fields of an object, if there is a value for each. -/
def keptFields? (fields : List (String × Option Value)) : Option Fields :=
  fields.mapM fun (key, v) => v.map (key, ·)

mutual

/-- A value, or `none` if it holds a number that is no integer in range. `depth` is how deep it may
nest, `skipping` lifts that bound and keeps nothing; `fuel` is more than the number of characters
left. -/
def readValue (skipping : Bool) : Nat → Nat → List Char → Read (Option Value)
  | 0, _, _ => .error .ended
  | fuel + 1, depth, cs =>
    match skipSpace cs with
    | [] => .error .ended
    | 'n' :: rest => (keyword ['u', 'l', 'l'] rest).map (some .null, ·)
    | 't' :: rest => (keyword ['r', 'u', 'e'] rest).map (some (.bool true), ·)
    | 'f' :: rest => (keyword ['a', 'l', 's', 'e'] rest).map (some (.bool false), ·)
    | '"' :: rest => (quotedText skipping rest).map fun (s, r) => (some (.text s), r)
    | '[' :: rest =>
      if !skipping && depth ≤ 1 then .error .malformed
      else (readItems skipping fuel (depth - 1) true rest).map fun (items, r) =>
        (items.map .list, r)
    | '\x7b' :: rest =>
      if !skipping && depth ≤ 1 then .error .malformed
      else (readFields skipping fuel (depth - 1) true [] rest).map fun (fs, r) =>
        ((keptFields? fs).map .object, r)
    | c :: rest =>
      if c = '-' || c.isDigit then
        if skipping then (numeral true (c :: rest)).map fun (_, r) => (none, r)
        else (number (c :: rest)).map fun (n, r) => (n.map .int, r)
      else .error .malformed

def readItems (skipping : Bool) : Nat → Nat → Bool → List Char → Read (Option (List Value))
  | 0, _, _, _ => .error .ended
  | fuel + 1, depth, first, cs =>
    match nextItem first cs with
    | .error f => .error f
    | .ok (none, rest) => .ok (some [], rest)
    | .ok (some start, _) =>
      match readValue skipping fuel depth start with
      | .error f => .error f
      | .ok (v, rest) =>
        (readItems skipping fuel depth false rest).map fun (vs, r) =>
          (v.bind fun v => vs.map (v :: ·), r)

/-- The fields of an object up to and with its closing brace; of two with one key the later
counts. -/
def readFields (skipping : Bool) : Nat → Nat → Bool → List (String × Option Value) → List Char →
    Read (List (String × Option Value))
  | 0, _, _, _, _ => .error .ended
  | fuel + 1, depth, first, done, cs =>
    match nextKey first cs with
    | .error f => .error f
    | .ok (none, rest) => .ok (done, rest.drop 1)
    | .ok (some start, _) =>
      match quotedText skipping start with
      | .error f => .error f
      | .ok (key, rest) =>
        match colon rest with
        | .error f => .error f
        | .ok rest =>
          match readValue skipping fuel depth rest with
          | .error f => .error f
          | .ok (v, rest) =>
            readFields skipping fuel depth false
              (if skipping then done else Fields.insert key v done) rest

end

/-- How deep the values of a text may nest. -/
def maxDepth : Nat := 128

def value (depth : Nat) (cs : List Char) : Read (Option Value) :=
  readValue false (2 * cs.length + 2) depth cs

/-- A value that is passed over; only its end matters. -/
def skip (cs : List Char) : Except ReadFault (List Char) :=
  (readValue true (2 * cs.length + 2) 0 cs).map Prod.snd

/-- What is wrong with a value of another kind than the one expected: a scalar must still be well
formed, of a list or an object only the start is looked at. -/
def unexpected (cs : List Char) : ReadFault :=
  match cs with
  | [] => .ended
  | '[' :: _ | '\x7b' :: _ => .mismatched
  | cs =>
    match value maxDepth cs with
    | .error f => f
    | .ok _ => .mismatched

def expectText (cs : List Char) : Read String :=
  match skipSpace cs with
  | '"' :: rest => quotedText false rest
  | cs => .error (unexpected cs)

end Parley.Value
