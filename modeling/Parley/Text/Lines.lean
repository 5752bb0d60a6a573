import Parley.Text.Bytes

/-!
# Lines of input

Input is a sequence of bytes. Its lines end with a line feed, which a carriage return may precede;
the last line may lack its end. Reading stops at the first line that is no text.
-/

set_option autoImplicit false

namespace Parley.Text

/-- A line without the end that marks it. -/
def stripReturn (line : List UInt8) : List UInt8 :=
  if line.getLast? = some 13 then line.dropLast else line

/-- The lines of the input; `line` is what has been read of the current one, in reverse. -/
def linesFrom (line : List UInt8) : List UInt8 → List (List UInt8)
  | [] => if line.isEmpty then [] else [line.reverse]
  | b :: rest =>
    if b = 10 then stripReturn line.reverse :: linesFrom [] rest else linesFrom (b :: line) rest

/-- The texts before the first item that is none. -/
def takeTexts : List (List UInt8) → List String
  | [] => []
  | line :: rest =>
    match ofBytes? line with
    | some s => s :: takeTexts rest
    | none => []

/-- The lines of the input, up to the first that is no text. -/
def lines (bytes : List UInt8) : List String := takeTexts (linesFrom [] bytes)

end Parley.Text
