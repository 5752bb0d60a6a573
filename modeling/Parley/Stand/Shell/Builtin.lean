import Parley.Stand.Shell.Basic

/-!
# Commands of the shell itself

The commands that change the shell they run in, or that it has in the place of a program. `exec`,
`eval` and others that run commands are not among them.
-/

set_option autoImplicit false

namespace Parley.Shell

/-- What a command does to the shell on its arguments. -/
abbrev Builtin := Shell → List String → Shell

def Builtin.ofProgram (p : Programs.Program) : Builtin := fun s arguments =>
  s.within (p { s.toProcess with status := 0 } arguments)

def natural? (s : String) : Option Nat :=
  if s ≠ "" && s.toList.all Char.isDigit then s.toNat? else none

/-! ## Going on -/

/-- Ends the shell, with the status of the last command if none is given. -/
def exitCommand : Builtin := fun s arguments =>
  match arguments with
  | [] => s.exit s.status
  | a :: _ =>
    match natural? a with
    | some n => s.exit (n % 256)
    | none => s.refuse ("exit: Illegal number: " ++ a)

def returnCommand : Builtin := fun s arguments =>
  match arguments with
  | [] => { s with halt := some .returned }
  | a :: _ =>
    match natural? a with
    | some n => { s with status := n % 256, halt := some .returned }
    | none => s.refuse ("return: Illegal number: " ++ a)

/-- Leaves loops, as many as there are at most. -/
def leave (name : String) (how : Nat → Halt) : Builtin := fun s arguments =>
  match (arguments.head?.map natural?).getD (some 1) with
  | some (n + 1) =>
    if s.loops = 0 then { s with status := 0 }
    else { s with status := 0, halt := some (how (min (n + 1) s.loops)) }
  | _ => s.refuse (name ++ ": Illegal number: " ++ arguments.head?.getD "")

/-! ## Parameters and variables -/

def shift : Builtin := fun s arguments =>
  match (arguments.head?.map natural?).getD (some 1) with
  | some n =>
    if s.parameters.length < n then s.refuse "shift: can't shift that many"
    else { s with parameters := s.parameters.drop n, status := 0 }
  | none => s.refuse ("shift: Illegal number: " ++ arguments.head?.getD "")

/-- Sets options, and the parameters if there are arguments left. -/
def setOptions (s : Shell) : List String → Shell
  | [] => { s with status := 0 }
  | a :: rest =>
    match a.toList with
    | ['-', '-'] => { s with parameters := rest, status := 0 }
    | '-' :: c :: cs => setOptions { s with flags := s.flags ++ c :: cs } rest
    | '+' :: c :: cs => setOptions { s with flags := s.flags.filter (!(c :: cs).contains ·) } rest
    | _ => { s with parameters := a :: rest, status := 0 }

/-- The name of a variable in an argument, and the value if one is given. -/
def declaration (a : String) : String × Option String :=
  match a.toList.span (· ≠ '=') with
  | (name, '=' :: value) => (String.ofList name, some (String.ofList value))
  | (name, _) => (String.ofList name, none)

def declare : Builtin := fun s arguments =>
  arguments.foldl
    (fun s a =>
      match declaration a with
      | (name, some value) => s.assign name value
      | _ => s)
    { s with status := 0 }

def exportVariables : Builtin := fun s arguments =>
  let s := declare s arguments
  { s with exported := s.exported ++ arguments.map fun a => (declaration a).1 }

def fixVariables : Builtin := fun s arguments =>
  let s := declare s arguments
  { s with fixed := s.fixed ++ arguments.map fun a => (declaration a).1 }

/-- Sets variables up to the end of the function. -/
def localVariables : Builtin := fun s arguments =>
  match s.locals with
  | none => s.refuse "local: not in a function"
  | some before =>
    let names := arguments.map fun a => (declaration a).1
    declare { s with locals := some (before ++ names.map fun n => (n, s.bindings.lookup n)) }
      arguments

def unset : Builtin := fun s arguments =>
  (arguments.filter (· ≠ "-v")).foldl
    (fun s name =>
      if s.fixed.contains name then s.refuse ("unset: " ++ name ++ ": is read only")
      else s.unsetVariable name)
    { s with status := 0 }

/-- The bytes of the next line of the input, the rest, and whether the line has an end. -/
def nextLine (bs : List UInt8) : List UInt8 × List UInt8 × Bool :=
  match bs.span (· ≠ 10) with
  | (line, _ :: rest) => (line, rest, true)
  | (line, []) => (line, [], false)

/-- Shares a line among variables: each gets a field, the last one all that is left. -/
def share (s : Shell) : List String → List Char → Shell
  | [], _ => s
  | [name], cs =>
    let blank := fun c => s.separators.contains c && [' ', '\t', '\n'].contains c
    s.assign name (String.ofList ((cs.dropWhile blank).reverse.dropWhile blank).reverse)
  | name :: names, cs =>
    let cs := cs.dropWhile fun c => s.separators.contains c && [' ', '\t', '\n'].contains c
    let (field, rest) := cs.span (!s.separators.contains ·)
    share (s.assign name (String.ofList field)) names (rest.drop 1)

/-- Takes backslashes away, and the line ends after them. -/
def withoutBackslashes : List Char → List Char
  | '\\' :: '\n' :: cs => withoutBackslashes cs
  | '\\' :: c :: cs => c :: withoutBackslashes cs
  | ['\\'] => []
  | c :: cs => c :: withoutBackslashes cs
  | [] => []

def readCommandLine : Builtin := fun s arguments =>
  let (letters, names) := Programs.splitOptions arguments
  let (line, rest, whole) := nextLine s.input
  let text := (Text.decode line).toList
  let text := if letters.contains 'r' then text else withoutBackslashes text
  let s := share { s with input := rest } names text
  if s.halt.isSome then s else { s with status := if whole then 0 else 1 }

/-! ## Places -/

def cd : Builtin := fun s arguments =>
  match arguments with
  | [] => { s with status := 0 }
  | path :: _ =>
    match s.files.find path with
    | .ok (l, .directory) => { s with files := { s.files with here := l }, status := 0 }
    | _ => s.complain 2 ("cd: can't cd to " ++ path)

def pwd : Builtin := fun s _ =>
  { s.within (s.toProcess.print 1 (Text.toBytes ("/" ++ "/".intercalate s.files.here ++ "\n"))) with
    status := 0 }

/-! ## Signals -/

/-- Sets what runs when signals arrive. -/
def trap : Builtin := fun s arguments =>
  let signal? := fun name : String =>
    if name.toList.map Char.toUpper = "EXIT".toList then some 0 else Signal.ofName? name
  let clear := fun (s : Shell) n => { s with traps := s.traps.filter (·.1 != n) }
  match arguments.dropWhile (· = "--") with
  | [] => { s with status := 0 }
  | action :: names =>
    let alone := names.isEmpty
    (if alone then [action] else names).foldl
      (fun s name =>
        match signal? name with
        | none => s.complain 1 ("trap: " ++ name ++ ": bad trap")
        | some n =>
          if alone || action = "-" then clear s n
          else { clear s n with traps := (n, action) :: (clear s n).traps })
      { s with status := 0 }

def receive (s : Shell) (signal : Nat) : Shell :=
  match s.traps.lookup signal with
  | some "" => s
  | some _ => { s with arrived := s.arrived ++ [signal] }
  | none =>
    if Signal.isUnnoticed signal || s.halt.isSome then s
    else { s with halt := some (.ended (.killed signal)) }

/-- Sends a signal to processes, of which only the shell itself can be reached. -/
def send (s : Shell) (signal : Nat) : List String → Shell
  | [] => s
  | target :: rest =>
    match natural? target with
    | none => s.complain 2 ("kill: Illegal number: " ++ target)
    | some n =>
      if n = s.id then send (s.receive signal) signal rest
      else send (s.complain 1 "kill: No such process") signal rest

/-- Sends a signal: one that is named, or the one that asks for an end. -/
def kill : Builtin := fun s arguments =>
  let usage := s.complain 2 ("kill: Usage: kill [-s sigspec | -signum | -sigspec] " ++
    "[pid | job]... or\nkill -l [exitstatus]")
  let named := fun (name : String) (targets : List String) =>
    match Signal.ofName? name with
    | none => s.complain 2 ("kill: invalid signal number or name: " ++ name)
    | some n => if targets.isEmpty then usage else send { s with status := 0 } n targets
  match arguments with
  | [] => usage
  | ["-l", status] =>
    let n := (natural? status).getD 0
    match Signal.named.lookup (if n < 128 then n else n - 128) with
    | some name => { s.within (s.toProcess.print 1 (Text.toBytes (name ++ "\n"))) with status := 0 }
    | none => s.complain 2 ("kill: invalid signal number or exit status: " ++ status)
  | "-s" :: name :: targets => named name targets
  | "--" :: targets => named "TERM" targets
  | a :: rest =>
    match a.toList with
    | '-' :: name =>
      match Signal.ofName? (String.ofList name) with
      | some n => if rest.isEmpty then usage else send { s with status := 0 } n rest
      | none =>
        match name with
        | 's' :: attached => named (String.ofList attached) rest
        | c :: _ => s.complain 2 ("kill: Illegal option -" ++ String.singleton c)
        | [] => usage
    | _ => named "TERM" (a :: rest)

/-! ## Printing -/

def echo : Programs.Program := fun p arguments =>
  let rules : Programs.EscapeRules := { stops := true, zeroLeads := true }
  match arguments with
  | "-n" :: rest => Programs.EchoOptions.print { noLineEnd := true, escapes := true } rules p rest
  | rest => Programs.EchoOptions.print { escapes := true } rules p rest

def printf : Programs.Program := fun p arguments =>
  let rules : Programs.FormatRules :=
    { format := {}, argument := { stops := true, zeroLeads := true }, invalid := 2 }
  match arguments with
  | [] => p.fail 2 "printf: usage: printf format [arg ...]"
  | "--" :: rest => Programs.printf rules p rest
  | format :: rest =>
    match format.toList with
    | '-' :: c :: _ => p.fail 2 ("printf: Illegal option -" ++ String.singleton c)
    | _ => Programs.printf rules p (format :: rest)

/-! ## All of them -/

/-- The commands in which a fault ends the shell, and whose assignments stay. -/
def special : List (String × Builtin) :=
  [(":", fun s _ => { s with status := 0 }),
    ("break", leave "break" .leaving),
    ("continue", leave "continue" .repeating),
    ("exit", exitCommand),
    ("export", exportVariables),
    ("readonly", fixVariables),
    ("return", returnCommand),
    ("set", setOptions),
    ("shift", shift),
    ("trap", trap),
    ("unset", unset)]

def ordinary : List (String × Builtin) :=
  [("true", .ofProgram fun p _ => p),
    ("false", .ofProgram fun p _ => { p with status := 1 }),
    ("echo", .ofProgram echo),
    ("printf", .ofProgram printf),
    ("test", .ofProgram Programs.test),
    ("[", .ofProgram Programs.bracket),
    ("cd", cd),
    ("pwd", pwd),
    ("read", readCommandLine),
    ("kill", kill),
    ("local", localVariables),
    ("umask", .ofProgram fun p _ => p),
    ("wait", .ofProgram fun p _ => p)]

end Parley.Shell
