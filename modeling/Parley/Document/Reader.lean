import Parley.Document.Quoted
import Parley.Document.Scalar

/-!
# Reading documents

A document is a sequence of lines. A line is blank, a header in brackets, or an entry: a key, an
equals sign and a value. A comment may end every line. Between brackets and braces line ends and
comments count as blanks. The format is TOML, version 1.1.
-/

set_option autoImplicit false

namespace Parley.Document

/-! ## Between the parts -/

def skipSpace (cs : List Char) : List Char := cs.dropWhile isSpace

/-- The rest after blanks, line ends and comments; `comment` says that a comment is open. -/
def skipGap : Bool → List Char → List Char
  | _, '\n' :: cs => skipGap false cs
  | _, '\r' :: '\n' :: cs => skipGap false cs
  | true, c :: cs => if isPlain c then skipGap true cs else c :: cs
  | false, c :: cs =>
    if isSpace c then skipGap false cs else if c = '#' then skipGap true cs else c :: cs
  | _, [] => []

/-- The rest after the comment at the start, if there is one. -/
def skipComment : List Char → List Char
  | '#' :: cs => cs.dropWhile isPlain
  | cs => cs

def nextLine? (cs : List Char) : Option (List Char) :=
  match skipComment (skipSpace cs) with
  | [] => some []
  | rest => lineBreak? rest

/-! ## Keys -/

def isBare (c : Char) : Bool := c.isAlphanum || c == '_' || c == '-'

def name? : List Char → Option (String × List Char)
  | '"' :: cs => textIn? .basic cs
  | '\'' :: cs => textIn? .literal cs
  | cs =>
    match cs.span isBare with
    | ([], _) => none
    | (run, rest) => some (String.ofList run, rest)

/-- How deep lists and tables may nest in a value, and how many names a key may have. -/
def maxDepth : Nat := 80

def keyPath? : Nat → List Char → Option (KeyPath × List Char)
  | 0, _ => none
  | most + 1, cs =>
    match name? cs with
    | none => none
    | some (name, rest) =>
      match skipSpace rest with
      | '.' :: more =>
        (keyPath? most (skipSpace more)).map fun (p, r) => (⟨name :: p.tables, p.name⟩, r)
      | rest => some (⟨[], name⟩, rest)

def readKey? (cs : List Char) : Option (KeyPath × List Char) := keyPath? maxDepth cs

/-! ## Values -/

mutual

/-- A value. Lists and tables nest to at most `depth`; `fuel` is more than the number of characters
left. -/
def node? : Nat → Nat → List Char → Option (Node × List Char)
  | 0, _, _ => none
  | fuel + 1, depth, cs =>
    match cs with
    | '[' :: rest =>
      if depth = 0 then none
      else (items? fuel (depth - 1) (skipGap false rest)).map fun (items, r) =>
        (.list false items, r)
    | '\x7b' :: rest =>
      if depth = 0 then none
      else
        match entries? fuel (depth - 1) (skipGap false rest) with
        | some (entries, r) =>
          (Fields.assignAll? [] entries).map fun fields => (.table .inline fields, r)
        | none => none
    | cs =>
      match readText? cs with
      | some (s, rest) => some (.text s, rest)
      | none => readScalar? cs

/-- The items of a list up to its closing bracket. -/
def items? : Nat → Nat → List Char → Option (List Node × List Char)
  | 0, _, _ => none
  | fuel + 1, depth, cs =>
    match cs with
    | ']' :: rest => some ([], rest)
    | cs =>
      match node? fuel depth cs with
      | none => none
      | some (v, rest) =>
        match skipGap false rest with
        | ']' :: rest => some ([v], rest)
        | ',' :: rest => (items? fuel depth (skipGap false rest)).map fun (vs, r) => (v :: vs, r)
        | _ => none

/-- The entries of a table up to its closing brace. -/
def entries? : Nat → Nat → List Char → Option (List Entry × List Char)
  | 0, _, _ => none
  | fuel + 1, depth, cs =>
    match cs with
    | '\x7d' :: rest => some ([], rest)
    | cs =>
      match readKey? cs with
      | none => none
      | some (path, rest) =>
        match skipGap false rest with
        | '=' :: rest =>
          match node? fuel depth (skipGap false rest) with
          | none => none
          | some (v, rest) =>
            match skipGap false rest with
            | '\x7d' :: rest => some ([⟨path, v⟩], rest)
            | ',' :: rest =>
              (entries? fuel depth (skipGap false rest)).map fun (es, r) => (⟨path, v⟩ :: es, r)
            | _ => none
        | _ => none

end

def readNode? (cs : List Char) : Option (Node × List Char) :=
  node? (2 * cs.length + 2) maxDepth cs

/-! ## Lines -/

inductive Line
  | blank
  | header (path : KeyPath) (inList : Bool)
  | entry (e : Entry)

def header? (inList : Bool) (cs : List Char) : Option (Line × List Char) :=
  match readKey? (skipSpace cs) with
  | none => none
  | some (path, rest) =>
    match inList, rest with
    | false, ']' :: rest => some (.header path false, rest)
    | true, ']' :: ']' :: rest => some (.header path true, rest)
    | _, _ => none

def entry? (cs : List Char) : Option (Line × List Char) :=
  match readKey? cs with
  | some (path, '=' :: rest) =>
    (readNode? (skipSpace rest)).map fun (v, r) => (.entry ⟨path, v⟩, r)
  | _ => none

def line? (cs : List Char) : Option (Line × List Char) :=
  match nextLine? cs with
  | some rest => some (.blank, rest)
  | none =>
    let found :=
      match skipSpace cs with
      | '[' :: '[' :: rest => header? true rest
      | '[' :: rest => header? false rest
      | rest => entry? rest
    match found with
    | some (l, rest) => (nextLine? rest).map (l, ·)
    | none => none

/-- All lines; `fuel` is more than the number of characters. -/
def lines? : Nat → List Char → Option (List Line)
  | _, [] => some []
  | 0, _ => none
  | fuel + 1, cs =>
    match line? cs with
    | some (l, rest) => (lines? fuel rest).map (l :: ·)
    | none => none

/-- The entries before the first header, and the sections from it on. -/
def cut : List Line → List Entry × List Section
  | [] => ([], [])
  | .blank :: ls => cut ls
  | .entry e :: ls =>
    let (es, ss) := cut ls
    (e :: es, ss)
  | .header path inList :: ls =>
    let (es, ss) := cut ls
    ([], ⟨path, inList, es⟩ :: ss)

/-- The document that a text denotes. A byte order mark may stand before it. -/
def read? (text : String) : Option Fields :=
  let cs := match text.toList with
    | '\ufeff' :: cs => cs
    | cs => cs
  match lines? (cs.length + 1) cs with
  | some ls =>
    let (es, ss) := cut ls
    assemble? es ss
  | none => none

end Parley.Document
