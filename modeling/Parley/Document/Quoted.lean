import Parley.Text.Hexadecimal

/-!
# Quoted texts

A document holds texts in four forms. A basic text stands in double quotes and has escapes; a
literal text stands in single quotes and has none. Each has a block form, in three quotes of its
kind, which may hold line ends and one or two such quotes in a row. `quote` chooses the form in
which a text is easiest to read, `readText?` reads every form.
-/

set_option autoImplicit false

namespace Parley.Document

inductive Quoting
  | basic
  | literal
  | basicBlock
  | literalBlock
  deriving DecidableEq, Repr

namespace Quoting

def mark : Quoting → Char
  | basic | basicBlock => '"'
  | literal | literalBlock => '\''

def isBlock : Quoting → Bool
  | basicBlock | literalBlock => true
  | basic | literal => false

def hasEscapes : Quoting → Bool
  | basic | basicBlock => true
  | literal | literalBlock => false

def delimiter (k : Quoting) : List Char :=
  if k.isBlock then [k.mark, k.mark, k.mark] else [k.mark]

end Quoting

/-! ## Choosing a form -/

/-- A control character other than a tab and a line end, which only an escape can stand for. -/
def needsEscape (c : Char) : Bool :=
  (c.toNat < 0x20 || c.toNat == 0x7f) && c != '\t' && c != '\n'

def hasTriple (q : Char) : List Char → Bool
  | a :: b :: c :: cs => (a == q && b == q && c == q) || hasTriple q (b :: c :: cs)
  | _ => false

/-- The form in which a text is written: the first of basic, literal, basic block and literal block
that shows it without escapes, and with escapes if there is none. -/
def quoting (cs : List Char) : Quoting :=
  if cs.any needsEscape then if cs.contains '\n' then .basicBlock else .basic
  else if !cs.contains '\\' && !cs.contains '"' && !cs.contains '\n' then .basic
  else if !cs.contains '\'' && !cs.contains '\n' then .literal
  else if !cs.contains '\\' && !hasTriple '"' cs then .basicBlock
  else if !hasTriple '\'' cs then .literalBlock
  else if cs.contains '\n' then .basicBlock else .basic

/-! ## Writing -/

/-- A character of a basic text other than a double quote. -/
def escapeChar (block : Bool) (c : Char) : List Char :=
  if c = '\x08' then ['\\', 'b']
  else if c = '\t' then ['\\', 't']
  else if c = '\n' then if block then ['\n'] else ['\\', 'n']
  else if c = '\x0c' then ['\\', 'f']
  else if c = '\r' then ['\\', 'r']
  else if c = '\\' then ['\\', '\\']
  else if c.toNat < 0x20 || c.toNat == 0x7f then
    '\\' :: 'u' :: (Text.hexDigits 4 c.toNat).map Char.toUpper
  else [c]

/-- The characters of a basic text. A block holds up to two double quotes in a row as they are; `run`
says how many stand before the rest. -/
def escapeText (block : Bool) : Nat → List Char → List Char
  | _, [] => []
  | run, c :: cs =>
    if c = '"' then
      if block && run < 2 then '"' :: escapeText block (run + 1) cs
      else '\\' :: '"' :: escapeText block 0 cs
    else escapeChar block c ++ escapeText block 0 cs

/-- The characters between the quotes. A line end after the opening quotes of a block is no part of
the text; it is written where the text has line ends of its own. -/
def quotedBody (k : Quoting) (cs : List Char) : List Char :=
  (if k.isBlock && cs.contains '\n' then ['\n'] else []) ++
    if k.hasEscapes then escapeText k.isBlock 0 cs else cs

def quoteChars (cs : List Char) : List Char :=
  let k := quoting cs
  k.delimiter ++ quotedBody k cs ++ k.delimiter

def quote (s : String) : String := String.ofList (quoteChars s.toList)

/-! ## Reading -/

/-- Blanks and tabs, the only characters that separate the parts of a line. -/
def isSpace (c : Char) : Bool := c == ' ' || c == '\t'

def isPlain (c : Char) : Bool := c == '\t' || (0x20 ≤ c.toNat && c.toNat != 0x7f)

def codePoint? (n : Nat) (cs : List Char) : Option (Char × List Char) :=
  if (cs.take n).length = n then
    match Text.hexNumber? 0 (cs.take n) with
    | some value => if value.isValidChar then some (Char.ofNat value, cs.drop n) else none
    | none => none
  else none

def escaped? : List Char → Option (Char × List Char)
  | [] => none
  | c :: cs =>
    match c with
    | 'b' => some ('\x08', cs)
    | 't' => some ('\t', cs)
    | 'n' => some ('\n', cs)
    | 'f' => some ('\x0c', cs)
    | 'r' => some ('\r', cs)
    | 'e' => some ('\x1b', cs)
    | '"' => some ('"', cs)
    | '\\' => some ('\\', cs)
    | 'x' => codePoint? 2 cs
    | 'u' => codePoint? 4 cs
    | 'U' => codePoint? 8 cs
    | _ => none

def lineBreak? : List Char → Option (List Char)
  | '\n' :: cs => some cs
  | '\r' :: '\n' :: cs => some cs
  | _ => none

def skipBlank : List Char → List Char
  | '\r' :: '\n' :: cs => skipBlank cs
  | c :: cs => if isSpace c || c == '\n' then skipBlank cs else c :: cs
  | [] => []

/-- The rest after a line end that a backslash before it cancels, with all blanks around it. -/
def joinedLine? (cs : List Char) : Option (List Char) :=
  (lineBreak? (cs.dropWhile isSpace)).map skipBlank

/-- The end of a text, if it is here: the quotes that still belong to the text, and the rest. -/
def closing? (k : Quoting) (cs : List Char) : Option (List Char × List Char) :=
  if cs.take k.delimiter.length = k.delimiter then
    let rest := cs.drop k.delimiter.length
    let own := if k.isBlock then (rest.takeWhile (· == k.mark)).take 2 else []
    some (own, rest.drop own.length)
  else none

/-- The next part of a text: the characters it stands for, and the rest. -/
def part? (k : Quoting) : List Char → Option (List Char × List Char)
  | [] => none
  | c :: cs =>
    if c = '\\' && k.hasEscapes then
      match if k.isBlock then joinedLine? cs else none with
      | some rest => some ([], rest)
      | none => (escaped? cs).map fun (e, rest) => ([e], rest)
    else if isPlain c then some ([c], cs)
    else if k.isBlock then
      match c, cs with
      | '\n', rest => some (['\n'], rest)
      | '\r', '\n' :: rest => some (['\r', '\n'], rest)
      | _, _ => none
    else none

/-- The characters up to the closing quotes, and the rest after these; `fuel` is more than the
number of parts. -/
def body? (k : Quoting) : Nat → List Char → Option (List Char × List Char)
  | 0, _ => none
  | fuel + 1, cs =>
    match closing? k cs with
    | some found => some found
    | none =>
      match part? k cs with
      | none => none
      | some (part, rest) => (body? k fuel rest).map fun (text, r) => (part ++ text, r)

def textIn? (k : Quoting) (cs : List Char) : Option (String × List Char) :=
  let start := if k.isBlock then (lineBreak? cs).getD cs else cs
  (body? k (start.length + 1) start).map fun (text, rest) => (String.ofList text, rest)

def readText? : List Char → Option (String × List Char)
  | '"' :: '"' :: '"' :: cs => textIn? .basicBlock cs
  | '\'' :: '\'' :: '\'' :: cs => textIn? .literalBlock cs
  | '"' :: cs => textIn? .basic cs
  | '\'' :: cs => textIn? .literal cs
  | _ => none

end Parley.Document
