import Parley.Words.Outline

/-!
# Splitting lines into words

`split` is strict and serves dispatch. `splitTolerant` serves a line that is still being typed: it
drops a dangling backslash and closes an open quote. `wordOffset` says where a word of such a line
begins.
-/

set_option autoImplicit false

namespace Parley.Words

/-- A line that has no words: a quote is left open in it. -/
structure SyntaxFault where
  line : String
  deriving DecidableEq, Repr

def SyntaxFault.message (f : SyntaxFault) : String := "Invalid command syntax: " ++ f.line

def splitChars (cs : List Char) : Option (List (List Char)) := readAll (escapeHashes cs)

/-- The words of `line`. A `#` is literal, never a comment. -/
def split (line : String) : Except SyntaxFault (List String) :=
  match splitChars line.toList with
  | some ws => .ok (ws.map String.ofList)
  | none => .error ⟨line⟩

structure Typed where
  words : List (List Char)
  /-- The line ends inside a quote, which was closed to read it. -/
  inQuote : Bool
  deriving DecidableEq, Repr

/-- The words of a line without dangling backslash: as it is, or else with an open quote closed,
by a single quote if that does it. -/
def closeQuote (cs : List Char) : Option Typed :=
  let marked := escapeHashes cs
  match readAll marked with
  | some ws => some ⟨ws, false⟩
  | none =>
    match readAll (marked ++ ['\'']) with
    | some ws => some ⟨ws, true⟩
    | none => (readAll (marked ++ ['"'])).map (⟨·, true⟩)

def splitTolerantChars (cs : List Char) : Option Typed := closeQuote (dropDangling cs)

/-- The words of `line`, which may end in the middle of a word, and whether it ends in a quote. -/
def splitTolerant (line : String) : Except SyntaxFault (List String × Bool) :=
  match splitTolerantChars line.toList with
  | some t => .ok (t.words.map String.ofList, t.inQuote)
  | none => .error ⟨String.ofList (dropDangling line.toList)⟩

/-- Where word number `count` of a text begins, counted from one, in characters; the length of the
text if it has no such word. -/
def wordOffsetChars (cs : List Char) (count : Nat) : Nat :=
  match count with
  | 0 => cs.length
  | n + 1 => (starts cs)[n]?.getD cs.length

/-- Where word number `count` of `line` begins, counted from one, in characters; the length of the
line if it has no such word. -/
def wordOffset (line : String) (count : Nat) : Nat := wordOffsetChars line.toList count

end Parley.Words
