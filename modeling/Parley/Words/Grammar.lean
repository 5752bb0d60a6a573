/-!
# The word grammar

A text is a sequence of words between separators. Quotes and backslashes put separators into words,
and an unquoted `#` where a word may start opens a comment up to the end of the line. `read` is the
grammar as one pass over the text, `quote` the way back: a spelling of one word.
-/

set_option autoImplicit false

namespace Parley.Words

/-- Words are separated by blanks, tabs and line ends, and by no other blank character. -/
def isSeparator (c : Char) : Bool := c == ' ' || c == '\t' || c == '\n'

/-- Where the reader stands between two characters. -/
inductive Place
  | between
  /-- After a backslash where no word is open. -/
  | escapeBetween
  /-- In a word, outside quotes. -/
  | bare
  | escapeBare
  | single
  | double
  | escapeDouble
  | comment
  deriving DecidableEq, Repr

/-- Puts `c` in front of the open word, which heads the list. -/
def push (c : Char) : List (List Char) → List (List Char)
  | [] => [[c]]
  | w :: ws => (c :: w) :: ws

/-- Inside double quotes a backslash escapes these; before any other character it stands for
itself. -/
def isEscapable (c : Char) : Bool := c == '$' || c == '`' || c == '"' || c == '\\'

/-- The words of the rest of a text from a place in it; while a word is open its rest comes first.
`none` when a quote is left open. With `comments` off, `#` is a character like any other. -/
def read (comments : Bool) : Place → List Char → Option (List (List Char))
  | .between, [] => some []
  | .between, c :: cs =>
    if c = '\'' then read comments .single cs
    else if c = '"' then read comments .double cs
    else if c = '\\' then read comments .escapeBetween cs
    else if isSeparator c then read comments .between cs
    else if comments && c == '#' then read comments .comment cs
    else (read comments .bare cs).map (push c)
  | .escapeBetween, [] => some [['\\']]
  | .escapeBetween, c :: cs =>
    if c = '\n' then read comments .between cs
    else (read comments .bare cs).map (push c)
  | .bare, [] => some [[]]
  | .bare, c :: cs =>
    if c = '\'' then read comments .single cs
    else if c = '"' then read comments .double cs
    else if c = '\\' then read comments .escapeBare cs
    else if isSeparator c then (read comments .between cs).map ([] :: ·)
    else (read comments .bare cs).map (push c)
  | .escapeBare, [] => some [['\\']]
  | .escapeBare, c :: cs =>
    if c = '\n' then read comments .bare cs
    else (read comments .bare cs).map (push c)
  | .single, [] => none
  | .single, c :: cs =>
    if c = '\'' then read comments .bare cs
    else (read comments .single cs).map (push c)
  | .double, [] => none
  | .double, c :: cs =>
    if c = '"' then read comments .bare cs
    else if c = '\\' then read comments .escapeDouble cs
    else (read comments .double cs).map (push c)
  | .escapeDouble, [] => none
  | .escapeDouble, c :: cs =>
    if c = '\n' then read comments .double cs
    else if isEscapable c then (read comments .double cs).map (push c)
    else (read comments .double cs).map fun ws => push '\\' (push c ws)
  | .comment, [] => some []
  | .comment, c :: cs =>
    if c = '\n' then read comments .between cs else read comments .comment cs

def readAll (cs : List Char) : Option (List (List Char)) := read true .between cs

/-! ## Quoting -/

/-- Characters that keep a word from standing for itself. -/
def needsQuotes (c : Char) : Bool :=
  -- `~` is U+007E: a word like `~a` is written in quotes
  c ∈ ['\n', '\'', '|', '&', ';', '<', '>', '(', ')', '$', '`', '\\', '"', ' ', '\t', '*', '?',
    '[', '#', '~', '=', '%']

/-- Inside single quotes a single quote closes them, stands escaped, and opens them again. -/
def escapeQuote (c : Char) : List Char :=
  if c = '\'' then ['\'', '\\', '\'', '\''] else [c]

/-- A spelling of `w` as one word: as it is if that is possible, else in single quotes. -/
def quoteChars (w : List Char) : List Char :=
  if w.isEmpty || w.any needsQuotes then '\'' :: w.flatMap escapeQuote ++ ['\''] else w

def quote (w : String) : String := String.ofList (quoteChars w.toList)

end Parley.Words
