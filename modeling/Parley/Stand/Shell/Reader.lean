import Parley.Stand.Shell.Script
import Parley.Words.Grammar

/-!
# Reading scripts

A reader from left to right. A script is read line by line, since a line runs before the next one is
looked at; a line goes on where a command is not complete. The readers that call one another have
fuel, which is more than the number of characters left.
-/

set_option autoImplicit false

namespace Parley.Shell

/-- What is read, and the rest; `none` if it is no part of a script. -/
abbrev Parsed (α : Type) := Option (α × List Char)

/-! ## Characters -/

def isBlank (c : Char) : Bool := c = ' ' || c = '\t'

/-- The characters that end a word. -/
def isDelimiter (c : Char) : Bool :=
  isBlank c || ['\n', ';', '&', '|', '<', '>', '(', ')'].contains c

def isNameStart (c : Char) : Bool := c.isAlpha || c = '_'

def isNameRest (c : Char) : Bool := c.isAlphanum || c = '_'

def isSpecial (c : Char) : Bool := ['@', '*', '#', '?', '$', '!', '-'].contains c

/-- The text after blanks, joined lines and a comment. -/
def skipBlanks : List Char → List Char
  | '\\' :: '\n' :: cs => skipBlanks cs
  | c :: cs =>
    if isBlank c then skipBlanks cs
    else if c = '#' then (c :: cs).dropWhile (· ≠ '\n')
    else c :: cs
  | [] => []

/-- The text after blanks and line ends; `fuel` bounds the number of lines. -/
def skipLines : Nat → List Char → List Char
  | 0, cs => cs
  | fuel + 1, cs =>
    match skipBlanks cs with
    | '\n' :: cs => skipLines fuel cs
    | cs => cs

/-- The characters up to the end of a word. -/
def bareWord (cs : List Char) : String := String.ofList (cs.takeWhile (!isDelimiter ·))

def closers : List String := ["then", "do", "done", "fi", "elif", "else", "esac", "\x7d"]

/-- Whether the commands of a list are over. -/
def atEnd : List Char → Bool
  | [] | ')' :: _ | ';' :: ';' :: _ => true
  | cs => closers.contains (bareWord cs)

def expect (word : String) (fuel : Nat) (cs : List Char) : Option (List Char) :=
  let cs := skipLines fuel cs
  if bareWord cs = word then some (cs.drop word.length) else none

/-- A redirection at the start of a text, without its target. -/
def redirection? (cs : List Char) : Parsed (Nat × Redirection) :=
  let (number, cs) := match cs with
    | d :: '<' :: r => if d.isDigit then (some (d.toNat - '0'.toNat), '<' :: r) else (none, cs)
    | d :: '>' :: r => if d.isDigit then (some (d.toNat - '0'.toNat), '>' :: r) else (none, cs)
    | cs => (none, cs)
  match cs with
  | '<' :: '<' :: r => some ((number.getD 0, .document), r)
  | '<' :: '&' :: r => some ((number.getD 0, .copy), r)
  | '<' :: r => some ((number.getD 0, .input), r)
  | '>' :: '>' :: r => some ((number.getD 1, .append), r)
  | '>' :: '&' :: r => some ((number.getD 1, .copy), r)
  | '>' :: '|' :: r | '>' :: r => some ((number.getD 1, .output), r)
  | _ => none

/-- The name before an equals sign at the start of a text, and what follows the sign. -/
def assigned? (cs : List Char) : Parsed String :=
  match cs.span isNameRest with
  | (c :: name, '=' :: rest) =>
    if isNameStart c then some (String.ofList (c :: name), rest) else none
  | _ => none

/-! ## Words -/

inductive Mode
  | bare
  | quotes
  /-- In braces, after the name of a parameter. -/
  | braces (quoted : Bool)
  /-- In an integer expression, so many parentheses deep. -/
  | sum (depth : Nat)
  | document
  deriving DecidableEq

namespace Mode

def isQuoted : Mode → Bool
  | bare => false
  | quotes | sum _ | document => true
  | braces quoted => quoted

def stopsAt : Mode → Char → Bool
  | bare, c => isDelimiter c
  | quotes, c => c = '"'
  | braces _, c => c = '\x7d'
  | sum depth, c => depth = 0 && c = ')'
  | document, _ => false

/-- Whether a backslash takes the meaning from a character. -/
def escapes : Mode → Char → Bool
  | document, c => c ≠ '"' && Words.isEscapable c
  | braces true, c => c = '\x7d' || Words.isEscapable c
  | mode, c => !mode.isQuoted || Words.isEscapable c

def after : Mode → Char → Mode
  | sum depth, '(' => sum (depth + 1)
  | sum depth, ')' => sum (depth - 1)
  | mode, _ => mode

end Mode

def addChar (quoted : Bool) (c : Char) : Word → Word
  | .text q s :: rest => if q = quoted then .text q (c :: s) :: rest
      else .text quoted [c] :: .text q s :: rest
  | pieces => .text quoted [c] :: pieces

/-- The text up to a back quote, without the backslashes before the characters that need one. -/
def backQuoted (quoted : Bool) : List Char → Parsed (List Char)
  | [] => none
  | '`' :: rest => some ([], rest)
  | '\\' :: c :: rest =>
    (backQuoted quoted rest).map fun (cs, r) =>
      (if ['$', '`', '\\'].contains c || (quoted && c = '"') then c :: cs else '\\' :: c :: cs, r)
  | c :: rest => (backQuoted quoted rest).map fun (cs, r) => (c :: cs, r)

/-- The lines up to one that is `last`, and the text after that one. Tabs before a line do not count
if it is `indented`; `fuel` bounds the number of lines. -/
def cutDocument (indented : Bool) (last : List Char) : Nat → List Char → List Char × List Char
  | 0, _ | _, [] => ([], [])
  | fuel + 1, cs =>
    let (line, rest) := cs.span (· ≠ '\n')
    let line := if indented then line.dropWhile (· = '\t') else line
    if line = last then ([], rest.drop 1)
    else
      let (body, after) := cutDocument indented last fuel (rest.drop 1)
      (line ++ (if rest.isEmpty then [] else ['\n']) ++ body, after)

def Command.andNext (first : Command) : Command → Command
  | .nothing => first
  | second => .next first second

mutual

/-- The pieces of a word up to where they end, and what is there. -/
def readPieces : Nat → Mode → List Char → Parsed Word
  | 0, _, _ => none
  | _ + 1, mode, [] => if mode = .bare || mode = .document then some ([], []) else none
  | fuel + 1, mode, c :: cs =>
    let quoted := mode.isQuoted
    if mode.stopsAt c then some ([], c :: cs)
    else
      match c, cs with
      | '\\', '\n' :: rest => readPieces fuel mode rest
      | '\\', d :: rest =>
        if mode.escapes d then
          (readPieces fuel mode rest).map fun (ps, r) => (addChar true d ps, r)
        else
          (readPieces fuel mode (d :: rest)).map fun (ps, r) => (addChar true '\\' ps, r)
      | '\\', [] => some ([.text true ['\\']], [])
      | '$', rest =>
        match readDollar fuel quoted rest with
        | none => none
        | some (first, rest) => (readPieces fuel mode rest).map fun (ps, r) => (first ++ ps, r)
      | '`', rest =>
        match backQuoted quoted rest with
        | none => none
        | some (script, rest) =>
          match readList fuel script with
          | some (c, []) =>
            (readPieces fuel mode rest).map fun (ps, r) => (.printed quoted c :: ps, r)
          | _ => none
      | '"', rest =>
        if mode = .document then
          (readPieces fuel mode rest).map fun (ps, r) => (addChar true '"' ps, r)
        else
        match readPieces fuel .quotes rest with
        | some (inner, '"' :: rest) =>
          (readPieces fuel mode rest).map fun (ps, r) =>
            ((if inner.isEmpty then [.text true []] else inner) ++ ps, r)
        | _ => none
      | '\'', rest =>
        if quoted then (readPieces fuel mode rest).map fun (ps, r) => (addChar true '\'' ps, r)
        else
          match rest.span (· ≠ '\'') with
          | (inner, '\'' :: rest) =>
            (readPieces fuel mode rest).map fun (ps, r) => (.text true inner :: ps, r)
          | _ => none
      | c, rest => (readPieces fuel (mode.after c) rest).map fun (ps, r) => (addChar quoted c ps, r)

/-- What follows a dollar sign in a word. -/
def readDollar : Nat → Bool → List Char → Parsed Word
  | 0, _, _ => none
  | fuel + 1, quoted, cs =>
    match cs with
    | '(' :: '(' :: rest =>
      match readPieces fuel (.sum 0) rest with
      | some (inner, ')' :: ')' :: rest) => some ([.sum quoted inner], rest)
      | _ => none
    | '(' :: rest =>
      match readList fuel rest with
      | some (c, ')' :: rest) => some ([.printed quoted c], rest)
      | _ => none
    | '\x7b' :: rest => readBraces fuel quoted rest
    | c :: rest =>
      if isNameStart c then
        let (name, rest) := (c :: rest).span isNameRest
        some ([.value quoted (String.ofList name) .plain], rest)
      else if c.isDigit || isSpecial c then
        some ([.value quoted (String.singleton c) .plain], rest)
      else some ([.text quoted ['$']], c :: rest)
    | [] => some ([.text quoted ['$']], [])

/-- A parameter in braces, after the opening one. What means nothing is refused when it is expanded,
since no parameter has an empty name. -/
def readBraces : Nat → Bool → List Char → Parsed Word
  | 0, _, _ => none
  | fuel + 1, quoted, cs =>
    let named : Parsed String := match cs with
      | c :: rest =>
        if isNameStart c then
          let (name, rest) := cs.span isNameRest
          some (String.ofList name, rest)
        else if c.isDigit then
          let (name, rest) := cs.span Char.isDigit
          some (String.ofList name, rest)
        else if isSpecial c then some (String.singleton c, rest)
        else none
      | [] => none
    let finish (form : Word → Form) (name : String) (rest : List Char) : Parsed Word :=
      match readPieces fuel (.braces quoted) rest with
      | some (word, '\x7d' :: rest) => some ([.value quoted name (form word)], rest)
      | _ => none
    match cs, named with
    | '#' :: c :: rest, _ =>
      if c = '\x7d' then some ([.value quoted "#" .plain], rest)
      else
        let (name, rest) := if isNameStart c || c.isDigit then (c :: rest).span isNameRest
          else ([c], rest)
        match rest with
        | '\x7d' :: rest => some ([.value quoted (String.ofList name) .length], rest)
        | _ => none
    | _, some (name, rest) =>
      match rest with
      | '\x7d' :: rest => some ([.value quoted name .plain], rest)
      | ':' :: '-' :: rest => finish (.orElse true .use) name rest
      | ':' :: '=' :: rest => finish (.orElse true .assign) name rest
      | ':' :: '?' :: rest => finish (.orElse true .refuse) name rest
      | ':' :: '+' :: rest => finish (.orElse true .whenSet) name rest
      | '-' :: rest => finish (.orElse false .use) name rest
      | '=' :: rest => finish (.orElse false .assign) name rest
      | '?' :: rest => finish (.orElse false .refuse) name rest
      | '+' :: rest => finish (.orElse false .whenSet) name rest
      | '%' :: '%' :: rest => finish (.cut true true) name rest
      | '%' :: rest => finish (.cut true false) name rest
      | '#' :: '#' :: rest => finish (.cut false true) name rest
      | '#' :: rest => finish (.cut false false) name rest
      | rest => finish (.orElse false .refuse) "" rest
    | _, none => none

/-- The commands up to where a list of them ends. -/
def readList : Nat → List Char → Parsed Command
  | 0, _ => none
  | fuel + 1, cs =>
    let cs := skipLines cs.length cs
    if atEnd cs then some (.nothing, cs)
    else
      match readChain fuel cs with
      | none => none
      | some (c, rest) =>
        match skipBlanks rest with
        | ';' :: ';' :: rest => some (c, ';' :: ';' :: rest)
        | ';' :: rest | '\n' :: rest =>
          (readList fuel rest).map fun (more, r) => (c.andNext more, r)
        | '&' :: rest =>
          (readList fuel rest).map fun (more, r) => ((Command.background c).andNext more, r)
        | rest => if atEnd rest then some (c, rest) else none

def readBody : Nat → String → List Char → Parsed Command
  | 0, _, _ => none
  | fuel + 1, closer, cs =>
    match readList fuel cs with
    | none | some (.nothing, _) => none
    | some (c, rest) => (expect closer rest.length rest).map (c, ·)

/-- Pipelines of which each runs only if those before it have succeeded, or failed. -/
def readChain : Nat → List Char → Parsed Command
  | 0, _ => none
  | fuel + 1, cs =>
    match readPipeline fuel cs with
    | none => none
    | some (c, rest) => readLinks fuel c rest

/-- What follows the first pipelines of a chain. -/
def readLinks : Nat → Command → List Char → Parsed Command
  | 0, _, _ => none
  | fuel + 1, c, cs =>
    match skipBlanks cs with
    | '&' :: '&' :: rest =>
      match readPipeline fuel (skipLines rest.length rest) with
      | none => none
      | some (d, rest) => readLinks fuel (.both c d) rest
    | '|' :: '|' :: rest =>
      match readPipeline fuel (skipLines rest.length rest) with
      | none => none
      | some (d, rest) => readLinks fuel (.either c d) rest
    | rest => some (c, rest)

/-- Commands of which each reads what the one before it prints. -/
def readPipeline : Nat → List Char → Parsed Command
  | 0, _ => none
  | fuel + 1, cs =>
    let cs := skipBlanks cs
    if bareWord cs = "!" then
      (readPipes fuel (cs.drop 1)).map fun (c, r) => (.negate c, r)
    else readPipes fuel cs

def readPipes : Nat → List Char → Parsed Command
  | 0, _ => none
  | fuel + 1, cs =>
    match readCommand fuel cs with
    | none => none
    | some (c, rest) =>
      match skipBlanks rest with
      | '|' :: '|' :: rest => some (c, '|' :: '|' :: rest)
      | '|' :: rest =>
        (readPipes fuel (skipLines rest.length rest)).map fun (d, r) => (.pipe c d, r)
      | rest => some (c, rest)

def readCommand : Nat → List Char → Parsed Command
  | 0, _ => none
  | fuel + 1, cs =>
    let cs := skipBlanks cs
    let word := bareWord cs
    let rest := cs.drop word.length
    match cs with
    | '(' :: rest =>
      match readList fuel rest with
      | some (.nothing, _) => none
      | some (c, ')' :: rest) => readRedirected fuel (.subshell c) rest
      | _ => none
    | _ =>
      match word with
      | "\x7b" => (readBody fuel "\x7d" rest).bind fun (c, r) => readRedirected fuel c r
      | "if" => (readChoice fuel rest).bind fun (c, r) => readRedirected fuel c r
      | "while" | "until" =>
        match readBody fuel "do" rest with
        | none => none
        | some (condition, rest) =>
          (readBody fuel "done" rest).bind fun (c, r) =>
            readRedirected fuel (.loop (word = "while") condition c) r
      | "for" => (readEach fuel rest).bind fun (c, r) => readRedirected fuel c r
      | "case" => (readSelect fuel rest).bind fun (c, r) => readRedirected fuel c r
      | _ => if closers.contains word || word = "!" then none else readSimple fuel true [] [] [] cs

/-- The redirections after a command that is made of others. -/
def readRedirected : Nat → Command → List Char → Parsed Command
  | 0, _, _ => none
  | fuel + 1, c, cs =>
    (readRedirects fuel cs).map fun (rs, rest) => (if rs.isEmpty then c else .redirected c rs, rest)

def readRedirects : Nat → List Char → Parsed (List Redirect)
  | 0, _ => none
  | fuel + 1, cs =>
    let cs := skipBlanks cs
    match redirection? cs with
    | none => some ([], cs)
    | some ((port, kind), rest) =>
      match readTarget fuel kind rest with
      | none => none
      | some (target, rest) =>
        (readRedirects fuel rest).map fun (rs, r) => (.mk port kind target :: rs, r)

/-- Where a redirection leads: a word, or the lines after this one. -/
def readTarget : Nat → Redirection → List Char → Parsed Word
  | 0, _, _ => none
  | fuel + 1, .document, cs =>
    let (indented, cs) := match cs with
      | '-' :: r => (true, r)
      | r => (false, r)
    match readPieces fuel .bare (skipBlanks cs) with
    | some ([.text quoted last], rest) =>
      let (line, following) := rest.span (· ≠ '\n')
      let (body, after) := cutDocument indented last (following.length + 1) (following.drop 1)
      if quoted then some ([.text true body], line ++ '\n' :: after)
      else (readPieces fuel .document body).map fun (ps, _) => (ps, line ++ '\n' :: after)
    | _ => none
  | fuel + 1, _, cs =>
    match readPieces fuel .bare (skipBlanks cs) with
    | none | some ([], _) => none
    | found => found

def readChoice : Nat → List Char → Parsed Command
  | 0, _ => none
  | fuel + 1, cs =>
    match readBody fuel "then" cs with
    | none => none
    | some (condition, rest) =>
      match readList fuel rest with
      | none | some (.nothing, _) => none
      | some (body, rest) =>
        let word := bareWord rest
        let rest := rest.drop word.length
        match word with
        | "fi" => some (.choice condition body .nothing, rest)
        | "else" => (readBody fuel "fi" rest).map fun (c, r) => (.choice condition body c, r)
        | "elif" => (readChoice fuel rest).map fun (c, r) => (.choice condition body c, r)
        | _ => none

def readEach : Nat → List Char → Parsed Command
  | 0, _ => none
  | fuel + 1, cs =>
    let cs := skipBlanks cs
    let name := bareWord cs
    let rest := skipLines cs.length (cs.drop name.length)
    if !(name.toList.head?.any isNameStart && name.toList.all isNameRest) then none
    else
      let words : Parsed (Option (List Word)) :=
        if bareWord rest = "in" then (readWords fuel (rest.drop 2)).map fun (ws, r) => (some ws, r)
        else some (none, rest)
      match words with
      | none => none
      | some (ws, rest) =>
        let rest := match skipBlanks rest with
          | ';' :: r => r
          | r => r
        match expect "do" rest.length rest with
        | none => none
        | some rest => (readBody fuel "done" rest).map fun (c, r) => (.each name ws c, r)

/-- Words one after another on a line. -/
def readWords : Nat → List Char → Parsed (List Word)
  | 0, _ => none
  | fuel + 1, cs =>
    match readPieces fuel .bare (skipBlanks cs) with
    | none => none
    | some ([], rest) => some ([], rest)
    | some (word, rest) => (readWords fuel rest).map fun (ws, r) => (word :: ws, r)

def readSelect : Nat → List Char → Parsed Command
  | 0, _ => none
  | fuel + 1, cs =>
    match readPieces fuel .bare (skipBlanks cs) with
    | none | some ([], _) => none
    | some (word, rest) =>
      match expect "in" rest.length rest with
      | none => none
      | some rest => (readBranches fuel rest).map fun (bs, r) => (.select word bs, r)

/-- The branches of a selection up to its end. -/
def readBranches : Nat → List Char → Parsed (List (List Word × Command))
  | 0, _ => none
  | fuel + 1, cs =>
    let cs := skipLines cs.length cs
    if bareWord cs = "esac" then some ([], cs.drop 4)
    else
      let cs := match cs with
        | '(' :: r => r
        | r => r
      match readPatterns fuel cs with
      | none => none
      | some (patterns, rest) =>
        match readList fuel rest with
        | none => none
        | some (c, rest) =>
          let rest := match skipLines rest.length rest with
            | ';' :: ';' :: r => some r
            | r => if bareWord r = "esac" then some r else none
          match rest with
          | none => none
          | some rest => (readBranches fuel rest).map fun (bs, r) => ((patterns, c) :: bs, r)

/-- The patterns of a branch up to the parenthesis after them. -/
def readPatterns : Nat → List Char → Parsed (List Word)
  | 0, _ => none
  | fuel + 1, cs =>
    match readPieces fuel .bare (skipBlanks cs) with
    | none | some ([], _) => none
    | some (pattern, rest) =>
      match skipBlanks rest with
      | ')' :: rest => some ([pattern], rest)
      | '|' :: rest => (readPatterns fuel rest).map fun (ps, r) => (pattern :: ps, r)
      | _ => none

/-- A command of words, or the definition of one. Assignments come before the first word. -/
def readSimple : Nat → Bool → List (String × Word) → List Word → List Redirect → List Char →
    Parsed Command
  | 0, _, _, _, _, _ => none
  | fuel + 1, assigning, assignments, words, redirects, cs =>
    let cs := skipBlanks cs
    match redirection? cs with
    | some ((port, kind), rest) =>
      match readTarget fuel kind rest with
      | none => none
      | some (target, rest) =>
        readSimple fuel assigning assignments words (redirects ++ [.mk port kind target]) rest
    | none =>
      match if assigning then assigned? cs else none with
      | some (name, rest) =>
        match readPieces fuel .bare rest with
        | none => none
        | some (value, rest) =>
          readSimple fuel true (assignments ++ [(name, value)]) words redirects rest
      | none =>
        match readPieces fuel .bare cs with
        | none => none
        | some ([], '(' :: rest) =>
          match words, skipBlanks rest with
          | [[.text false name]], ')' :: rest =>
            if !(name.head?.any isNameStart && name.all isNameRest) || !redirects.isEmpty then none
            else
              (readCommand fuel (skipLines rest.length rest)).map fun (c, r) =>
                (.define (String.ofList name) c, r)
          | _, _ => none
        | some ([], rest) =>
          if assignments.isEmpty && words.isEmpty && redirects.isEmpty then none
          else some (.simple assignments words redirects, rest)
        | some (word, rest) => readSimple fuel false assignments (words ++ [word]) redirects rest

end

def readLine : Nat → List Char → Parsed Command
  | 0, _ => none
  | fuel + 1, cs =>
    match skipBlanks cs with
    | [] => some (.nothing, [])
    | '\n' :: rest => some (.nothing, rest)
    | cs =>
      match readChain (8 * cs.length + 8) cs with
      | none => none
      | some (c, rest) =>
        match skipBlanks rest with
        | ';' :: rest => (readLine fuel rest).map fun (more, r) => (c.andNext more, r)
        | '&' :: rest =>
          (readLine fuel rest).map fun (more, r) => ((Command.background c).andNext more, r)
        | [] => some (c, [])
        | '\n' :: rest => some (c, rest)
        | _ => none

end Parley.Shell
