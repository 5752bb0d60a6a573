import Parley.Stand.Programs.Format

/-!
# Programs

The programs that a command line can name: they print texts and files, copy and remove files,
succeed or fail.
-/

set_option autoImplicit false

namespace Parley.Programs

/-! ## Printing texts -/

/-- The options of `echo`: the line end is left out, escapes are replaced. -/
structure EchoOptions where
  noLineEnd : Bool := false
  escapes : Bool := false

def EchoOptions.switch? (o : EchoOptions) : List Char → Option EchoOptions
  | [] => some o
  | 'n' :: cs => { o with noLineEnd := true }.switch? cs
  | 'e' :: cs => { o with escapes := true }.switch? cs
  | 'E' :: cs => { o with escapes := false }.switch? cs
  | _ => none

def EchoOptions.read (o : EchoOptions) : List String → EchoOptions × List String
  | [] => (o, [])
  | argument :: rest =>
    match argument.toList with
    | '-' :: c :: cs =>
      match o.switch? (c :: cs) with
      | some o => o.read rest
      | none => (o, argument :: rest)
    | _ => (o, argument :: rest)

/-- Prints its arguments with blanks between them. -/
def EchoOptions.print (o : EchoOptions) (r : EscapeRules) : Program := fun p arguments =>
  let line := " ".intercalate arguments
  let shown : Expanded := if o.escapes then r.expand line else { bytes := Text.toBytes line }
  p.print 1 (if o.noLineEnd || shown.stopped then shown.bytes else shown.bytes ++ [10])

def echo : Program := fun p arguments =>
  let (o, rest) := EchoOptions.read {} arguments
  o.print { hexadecimal := true, stops := true, zeroLeads := true } p rest

def printfProgram : Program := fun p arguments =>
  printf
    { format := { hexadecimal := true, strict := true, stops := true }
      argument := { hexadecimal := true, strict := true, stops := true, zeroLeads := true }
      invalid := 1
      strict := true }
    p (if arguments.head? = some "--" then arguments.drop 1 else arguments)

/-! ## Files -/

/-- The letters of the options among the arguments, and the other arguments. Two dashes end the
options; one alone is no option. -/
def splitOptions : List String → List Char × List String
  | [] => ([], [])
  | argument :: rest =>
    match argument.toList with
    | ['-', '-'] => ([], rest)
    | '-' :: c :: cs => let (letters, others) := splitOptions rest; (c :: cs ++ letters, others)
    | _ => let (letters, others) := splitOptions rest; (letters, argument :: others)

/-- A program whose options are all among `known`. -/
def withOptions (name known : String) (run : List Char → Program) : Program := fun p arguments =>
  let (letters, rest) := splitOptions arguments
  match letters.find? (!known.toList.contains ·) with
  | some c => p.fail 1 (name ++ ": invalid option -- '" ++ String.singleton c ++ "'")
  | none => run letters p rest

/-- How lines are shown by `cat`. -/
structure LineMarks where
  number : Bool := false
  /-- Only lines that are not empty have a number. -/
  numberFilled : Bool := false
  ends : Bool := false
  tabs : Bool := false
  control : Bool := false
  squeeze : Bool := false

def LineMarks.ofLetters (letters : List Char) : LineMarks :=
  let any := fun cs : List Char => cs.any letters.contains
  { number := any ['n'], numberFilled := any ['b'], ends := any ['A', 'e', 'E']
    tabs := any ['A', 't', 'T'], control := any ['A', 'e', 't', 'v'], squeeze := any ['s'] }

def shownLow (b : UInt8) : List UInt8 :=
  if b < 32 then [94, b + 64] else if b = 127 then [94, 63] else [b]

def LineMarks.byte (m : LineMarks) (b : UInt8) : List UInt8 :=
  if b = 9 then if m.tabs then [94, 73] else [9]
  else if !m.control then [b]
  else if b < 128 then shownLow b
  else [77, 45] ++ shownLow (b - 128)

/-- Shows what is left of some bytes. `count` is the number of lines with a number so far, `empty`
the number of empty lines just before, `fresh` whether a line starts. -/
def LineMarks.show (m : LineMarks) (count empty : Nat) (fresh : Bool) : List UInt8 → List UInt8
  | [] => []
  | b :: bs =>
    let numbered := fresh && if m.numberFilled then b ≠ 10 else m.number
    let label := if numbered then
        let digits := toString (count + 1)
        Text.toBytes ("".pushn ' ' (6 - digits.length) ++ digits ++ "\t")
      else []
    let count := if numbered then count + 1 else count
    if b = 10 then
      if fresh && m.squeeze && 0 < empty then
        m.show (if numbered then count - 1 else count) empty true bs
      else
        label ++ (if m.ends then [36] else []) ++ [10] ++
          m.show count (if fresh then empty + 1 else 0) true bs
    else label ++ m.byte b ++ m.show count 0 false bs

/-- Prints files one after another, or what can be read, and fails if a file cannot be read. -/
def cat : Program := withOptions "cat" "AbeEnstTuv" fun letters p paths =>
  let (p, content) := (if paths.isEmpty then ["-"] else paths).foldl
    (fun (p, content) path =>
      if path = "-" then ({ p with input := [] }, content ++ p.input)
      else match p.files.read path with
        | .ok more =>
          if !more.isEmpty && p.printsTo path then
            (p.fail 1 ("cat: " ++ path ++ ": input file is output file"), content)
          else (p, content ++ more)
        | .error f => (p.failOn "cat" path f, content))
    (p, [])
  p.print 1 ((LineMarks.ofLetters letters).show 0 0 true content)

/-- Removes files, and fails if one is not there, unless it is forced. -/
def rm : Program := withOptions "rm" "fv" fun letters p paths =>
  paths.foldl
    (fun p path =>
      match p.files.remove path with
      | .ok files => { p with files }
      | .error f =>
        if f = .notFound && letters.contains 'f' then p
        else p.fail 1 ("rm: cannot remove '" ++ path ++ "': " ++ f.reason))
    p

def into (directory path : String) : String :=
  directory ++ "/" ++ ((Files.parts path).filter (· ≠ "")).getLast?.getD ""

/-- Copies files to the last of the arguments, which is a directory or the new file, and removes
them if they are moved. -/
def transfer (name : String) (moved : Bool) : Program := withOptions name "f" fun _ p paths =>
  match paths.getLast? with
  | none => p.fail 1 (name ++ ": missing file operand")
  | some target =>
    if paths.length < 2 then
      p.fail 1 (name ++ ": missing destination file operand after '" ++ target ++ "'")
    else
    paths.dropLast.foldl
      (fun p path =>
        let path' := if p.files.isDirectory target then into target path else target
        let done : Except (String × Files.Fault) Files.Tree :=
          match p.files.read path with
          | .error f => .error (path, f)
          | .ok content =>
            match p.files.write path' content with
            | .error f => .error (path', f)
            | .ok files =>
              if moved && (p.files.find path).toOption.map Prod.fst ≠
                  (files.find path').toOption.map Prod.fst then
                .ok ((files.remove path).toOption.getD files)
              else .ok files
        match done with
        | .ok files => { p with files }
        | .error (path, f) => p.fail 1 (name ++ ": cannot stat '" ++ path ++ "': " ++ f.reason))
      p

def touch : Program := withOptions "touch" "c" fun _ p paths =>
  paths.foldl
    (fun p path =>
      if p.files.holds path then p
      else match p.files.write path [] with
        | .ok files => { p with files }
        | .error f => p.failOn "touch" path f)
    p

/-- Makes directories, with those they lie in if asked to. -/
def mkdir : Program := withOptions "mkdir" "p" fun letters p paths =>
  paths.foldl
    (fun p path =>
      let (files, done) :=
        if letters.contains 'p' then p.files.makeDirectories path
        else match p.files.makeDirectory path with
          | .ok files => (files, .ok ())
          | .error f => (p.files, .error f)
      match done with
      | .ok () => { p with files }
      | .error f => { p with files }.failOn "mkdir" path f)
    p

/-! ## All of them -/

def all : List (String × Program) :=
  [("true", fun p _ => p),
    ("false", fun p _ => { p with status := 1 }),
    ("echo", echo),
    ("printf", printfProgram),
    ("cat", cat),
    ("rm", rm),
    ("cp", transfer "cp" false),
    ("mv", transfer "mv" true),
    ("touch", touch),
    ("mkdir", mkdir),
    ("sleep", fun p _ => p)]

end Parley.Programs
