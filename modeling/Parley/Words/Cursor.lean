import Parley.Words.Split

/-!
# The word under the cursor

A half-typed line seen from its end: the words that are complete, the part of a word that is being
typed, and where that word begins. `Cursor.complete` turns candidates for the word into completions.
-/

set_option autoImplicit false

namespace Parley.Words

/-- A text to insert in place of the word being typed. -/
structure Completion where
  text : String
  display : String
  /-- Where the insertion begins, in characters from the cursor: never positive. -/
  position : Int
  deriving DecidableEq, Repr

/-- A half-typed line seen from its end. -/
structure Cursor where
  /-- The complete words before the one being typed. -/
  preceding : List String
  /-- What is typed of the last word; empty when a new one is starting. -/
  part : String
  inQuote : Bool
  offset : Nat
  length : Nat
  deriving DecidableEq, Repr

namespace Cursor

def ofTyped (cs : List Char) (t : Typed) : Cursor :=
  let kept := dropDangling cs
  -- at a gap a new word starts, which has no part yet
  if (!t.inQuote && (outline kept).atGap) || t.words.isEmpty then
    { preceding := t.words.map String.ofList, part := "", inQuote := t.inQuote,
      offset := cs.length, length := cs.length }
  else
    { preceding := t.words.dropLast.map String.ofList
      part := String.ofList (t.words.getLast?.getD [])
      inQuote := t.inQuote
      offset := wordOffsetChars kept t.words.length
      length := cs.length }

/-- The cursor at the end of `line`. -/
def ofLine (line : String) : Except SyntaxFault Cursor :=
  match splitTolerantChars line.toList with
  | some t => .ok (ofTyped line.toList t)
  | none => .error ⟨String.ofList (dropDangling line.toList)⟩

def position (c : Cursor) : Nat := c.preceding.length

/-- Whether `candidate` begins with what is typed, letter case included. -/
def admits (c : Cursor) (candidate : String) : Bool :=
  c.part.toList.isPrefixOf candidate.toList

/-- The completion that puts `candidate` in place of the word being typed. -/
def completion (c : Cursor) (candidate : String) : Completion :=
  { text := quote candidate, display := candidate, position := (c.offset : Int) - c.length }

def complete (c : Cursor) (candidates : List String) : List Completion :=
  (candidates.filter c.admits).map c.completion

end Cursor

/-- The line that results from inserting `completion` at the end of `line`. -/
def applyCompletion (line : String) (completion : Completion) : String :=
  let cs := line.toList
  String.ofList (cs.take (cs.length - completion.position.natAbs)) ++ completion.text

end Parley.Words
