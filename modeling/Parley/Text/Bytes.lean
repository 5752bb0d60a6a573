/-!
# Texts as bytes

Files and standard input hold bytes. A text is kept there in its UTF-8 form.
-/

set_option autoImplicit false

namespace Parley.Text

def toBytes (s : String) : List UInt8 := s.toUTF8.data.toList

def ofBytes? (bytes : List UInt8) : Option String := String.fromUTF8? ⟨bytes.toArray⟩

/-! ## Bytes that are no text -/

/-- The first byte of a character: how many bytes follow, its bits of the code point, and the range
of the byte after it. -/
def leadByte? (b : UInt8) : Option (Nat × Nat × UInt8 × UInt8) :=
  if b < 0x80 then some (0, b.toNat, 0x80, 0xbf)
  else if 0xc2 ≤ b && b ≤ 0xdf then some (1, b.toNat - 0xc0, 0x80, 0xbf)
  else if b = 0xe0 then some (2, 0, 0xa0, 0xbf)
  else if b = 0xed then some (2, 13, 0x80, 0x9f)
  else if 0xe1 ≤ b && b ≤ 0xef then some (2, b.toNat - 0xe0, 0x80, 0xbf)
  else if b = 0xf0 then some (3, 0, 0x90, 0xbf)
  else if 0xf1 ≤ b && b ≤ 0xf3 then some (3, b.toNat - 0xf0, 0x80, 0xbf)
  else if b = 0xf4 then some (3, 4, 0x80, 0x8f)
  else none

def replacement : Char := '\uFFFD'

/-- The character that goes on with `count` more bytes, and the bytes after it. It breaks off at a
byte that is not in the range. -/
def character (code : Nat) (low high : UInt8) : Nat → List UInt8 → Char × List UInt8
  | 0, bs => (Char.ofNat code, bs)
  | _ + 1, [] => (replacement, [])
  | count + 1, b :: bs =>
    if low ≤ b && b ≤ high then character (code * 64 + (b.toNat - 0x80)) 0x80 0xbf count bs
    else (replacement, b :: bs)

/-- The characters of bytes; `fuel` bounds their number. -/
def decodeFrom : Nat → List UInt8 → List Char
  | 0, _ | _, [] => []
  | fuel + 1, b :: bs =>
    match leadByte? b with
    | none => replacement :: decodeFrom fuel bs
    | some (count, code, low, high) =>
      let (c, rest) := character code low high count bs
      c :: decodeFrom fuel rest

/-- The text of any bytes: what is no character is replaced. -/
def decode (bytes : List UInt8) : String := String.ofList (decodeFrom bytes.length bytes)

end Parley.Text
