/-!
# Scripts

A script is a command made of commands. Its words are made of pieces that are expanded only when the
command runs, since they hold values of parameters and what other commands print.
-/

set_option autoImplicit false

namespace Parley.Shell

/-- What a redirection does with a port. -/
inductive Redirection
  | input
  | output
  | append
  /-- What follows the line is read from. -/
  | document
  /-- The port leads where another one leads, or is closed. -/
  | copy
  deriving DecidableEq, Repr

/-- What stands for a parameter without a value. -/
inductive Fallback
  | use
  | assign
  | refuse
  | whenSet
  deriving DecidableEq, Repr

mutual

/-- A piece of a word. What is not quoted is split at blanks and may be a pattern for names. -/
inductive Piece
  | text (quoted : Bool) (s : List Char)
  | value (quoted : Bool) (name : String) (form : Form)
  | printed (quoted : Bool) (c : Command)
  /-- The value of an integer expression. -/
  | sum (quoted : Bool) (expression : List Piece)

/-- What is made of the value of a parameter. -/
inductive Form
  | plain
  | length
  /-- With a colon an empty value counts as none. -/
  | orElse (colon : Bool) (fallback : Fallback) (word : List Piece)
  /-- What matches a pattern is cut off. -/
  | cut (atEnd longest : Bool) (pattern : List Piece)

/-- A redirection of a port: what is done, and the word that says where it leads. -/
inductive Redirect
  | mk (port : Nat) (kind : Redirection) (target : List Piece)

inductive Command
  | nothing
  | simple (assignments : List (String × List Piece)) (words : List (List Piece))
      (redirects : List Redirect)
  /-- What the first prints is the input of the second. -/
  | pipe (first second : Command)
  | negate (c : Command)
  | both (first second : Command)
  | either (first second : Command)
  | next (first second : Command)
  | background (c : Command)
  | redirected (c : Command) (redirects : List Redirect)
  /-- A command that changes nothing in the shell but files. -/
  | subshell (c : Command)
  | choice (condition body otherwise : Command)
  /-- As long as the condition succeeds, if that is `expected`, or else fails. -/
  | loop (expected : Bool) (condition body : Command)
  /-- For each of the words, or of the parameters. -/
  | each (name : String) (words : Option (List (List Piece))) (body : Command)
  /-- The first branch with a pattern that a word matches. -/
  | select (word : List Piece) (branches : List (List (List Piece) × Command))
  | define (name : String) (body : Command)

end

abbrev Word := List Piece

end Parley.Shell
