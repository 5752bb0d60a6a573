import Parley.Editor.Ending
import Parley.Stand.Programs.System
import Parley.Stand.Shell.Pattern
import Parley.Stand.Shell.Script

/-!
# Shells

A shell is a process with parameters, variables and what has been said about signals. Words are
expanded to atoms first, and the atoms are split into fields.
-/

set_option autoImplicit false

namespace Parley.Shell

/-- Why a shell does not go on with the next command. -/
inductive Halt
  | ended (e : Ending)
  /-- So many loops are left. -/
  | leaving (loops : Nat)
  /-- So many loops but one are left, and the last one goes on with its next round. -/
  | repeating (loops : Nat)
  /-- A function, or a script read by another one, is over. -/
  | returned
  deriving DecidableEq, Repr

end Parley.Shell

namespace Parley

structure Shell extends Process where
  id : Nat := 1000
  name : String := Programs.shell
  parameters : List String := []
  bindings : List (String × String) := []
  /-- The variables that other programs get. -/
  exported : List String := []
  /-- The variables that keep their values. -/
  fixed : List String := []
  /-- In a function, what variables of its own were before; `none` outside functions. -/
  locals : Option (List (String × Option String)) := none
  functions : List (String × Shell.Command) := []
  traps : List (Nat × String) := []
  arrived : List Nat := []
  /-- The options that are on: with `e` a command that fails ends the shell, with `u` no variable
  may be used that is not set, with `f` no word is a pattern for names. -/
  flags : List Char := []
  loops : Nat := 0
  /-- The status of the last command whose output became part of a word. -/
  substituted : Option Nat := none
  halt : Option Shell.Halt := none

namespace Shell

def within (s : Shell) (p : Process) : Shell := { s with toProcess := p }

def complain (s : Shell) (status : Nat) (complaint : String) : Shell :=
  s.within (s.toProcess.fail status (s.name ++ ": 1: " ++ complaint))

def exit (s : Shell) (status : Nat) : Shell :=
  { s with status, halt := some (.ended (.exited status)) }

def refuse (s : Shell) (complaint : String) : Shell := (s.complain 2 complaint).exit 2

/-! ## Variables -/

def setVariable (s : Shell) (name value : String) : Shell :=
  { s with bindings := (name, value) :: s.bindings.filter (·.1 != name) }

def unsetVariable (s : Shell) (name : String) : Shell :=
  { s with bindings := s.bindings.filter (·.1 != name) }

/-- Sets a variable, unless it keeps its value: then the shell ends. -/
def assign (s : Shell) (name value : String) : Shell :=
  if s.fixed.contains name then s.refuse (name ++ ": is read only") else s.setVariable name value

/-- Brings a variable back to what it was. -/
def restoreVariable (s : Shell) (name : String) (old : Option String) : Shell :=
  match old with
  | some value => s.setVariable name value
  | none => s.unsetVariable name

def environment (s : Shell) : List (String × String) :=
  s.bindings.filter fun (name, _) => s.exported.contains name

def separators (s : Shell) : List Char :=
  ((s.bindings.lookup "IFS").map String.toList).getD [' ', '\t', '\n']

def joined (s : Shell) : String :=
  (match s.separators with
    | c :: _ => String.singleton c
    | [] => "").intercalate s.parameters

/-- The value of a parameter or a variable. -/
def value? (s : Shell) (name : String) : Option String :=
  match name with
  | "@" | "*" => if s.parameters.isEmpty then none else some s.joined
  | "#" => some (toString s.parameters.length)
  | "?" => some (toString s.status)
  | "$" => some (toString s.id)
  | "-" => some (String.ofList s.flags)
  | "!" => none
  | "0" => some s.name
  | name =>
    match name.toNat? with
    | some n => s.parameters[n - 1]?
    | none => s.bindings.lookup name

/-! ## Other processes -/

/-- A copy of the shell, in which only the signals that are kept away stay so. -/
def fork (s : Shell) : Shell :=
  { s with
    traps := s.traps.filter fun (n, action) => n ≠ 0 && action = ""
    arrived := []
    loops := 0 }

/-- The shell after a copy of it has ended: files, what is printed, what is left to be read, and a
signal to the shell stay. -/
def join (s child : Shell) : Shell :=
  { s with
    files := { child.files with here := s.files.here }
    pipes := child.pipes
    input := child.input
    status := child.status
    halt := match child.halt with
      | some (.ended (.killed n)) => some (.ended (.killed n))
      | _ => s.halt }

/-! ## Ports -/

def setPort (s : Shell) (number : Nat) (port : Option Port) : Shell :=
  { s with
    ports := (port.toList.map (number, ·)) ++ s.ports.filter (·.1 != number) }

def intoPipe (s : Shell) : Shell :=
  { s with pipes := s.pipes ++ [[]] }.setPort 1 (some (.pipe s.pipes.length))

def openFault (verb missing path : String) (f : Files.Fault) : String :=
  "cannot " ++ verb ++ " " ++ path ++ ": " ++
    (if f = .notFound || f = .notDirectory then missing else f.reason)

/-- The files that stand for ports. -/
def outlets : List (String × Nat) := [("/dev/stdout", 1), ("/dev/stderr", 2)]

/-- Redirects a port, or says why that cannot be done. -/
def redirect (s : Shell) (number : Nat) (kind : Redirection) (target : String) :
    Except String Shell :=
  match kind with
  | .input =>
    match s.files.read target with
    | .ok content => .ok (if number = 0 then { s with input := content } else s)
    | .error .isDirectory => .ok (if number = 0 then { s with input := [] } else s)
    | .error f => .error (openFault "open" "No such file" target f)
  | .document => .ok (if number = 0 then { s with input := Text.toBytes target } else s)
  | .copy =>
    if target = "-" then .ok (s.setPort number none)
    else
      match target.toNat? with
      | none => .error ("Bad fd number: " ++ target)
      | some 0 => .ok s
      | some n =>
        match s.ports.lookup n with
        | some port => .ok (if number = 0 then s else s.setPort number (some port))
        | none => .error (target ++ ": Bad file descriptor")
  | .output | .append =>
    match (outlets.lookup target).bind (s.ports.lookup ·) with
    | some port => .ok (s.setPort number (some port))
    | none =>
    let held := match kind, s.files.read target with
      | .append, .ok content => content
      | _, _ => []
    match s.files.write target held with
    | .error f => .error (openFault "create" "Directory nonexistent" target f)
    | .ok files =>
      match files.find target with
      | .ok (l, _) => .ok ({ s with files }.setPort number (some (.file l)))
      | .error f => .error f.reason

/-! ## Fields -/

/-- What words are expanded to. -/
inductive Atom
  /-- A word is there, even if it stays empty. -/
  | word
  /-- A character; one that is loose may split the word. -/
  | char (quoted loose : Bool) (c : Char)
  | gap
  deriving DecidableEq

def Atom.ofValue (quoted : Bool) (s : String) : List Atom :=
  (if quoted then [word] else []) ++ s.toList.map (char quoted !quoted)

/-- The atoms of several values, each a word of its own. -/
def Atom.ofValues (quoted : Bool) (values : List String) : List Atom :=
  List.intercalate [gap] (values.map (Atom.ofValue quoted))

/-- The fields that atoms make; `current` is the one that is open, in reverse. -/
def splitFields (separators : List Char) : Option Field → List Atom → List Field
  | current, [] => (current.map List.reverse).toList
  | current, .word :: rest => splitFields separators (some (current.getD [])) rest
  | current, .gap :: rest => (current.map List.reverse).toList ++ splitFields separators none rest
  | current, .char quoted loose c :: rest =>
    if loose && separators.contains c then
      if [' ', '\t', '\n'].contains c then
        (current.map List.reverse).toList ++ splitFields separators none rest
      else (current.getD []).reverse :: splitFields separators none rest
    else splitFields separators (some ((quoted, c) :: current.getD [])) rest

def joinAtoms (atoms : List Atom) : Field :=
  atoms.flatMap fun
    | .word => []
    | .char quoted _ c => [(quoted, c)]
    | .gap => [(true, ' ')]

/-- The same atoms, of which those that are not quoted may split the word. -/
def loosen (atoms : List Atom) : List Atom :=
  atoms.map fun
    | .char false _ c => .char false true c
    | a => a

/-- A value without what a pattern stands for at one of its ends. -/
def cutOff (atEnd longest : Bool) (pattern : Field) (s : List Char) : List Char :=
  let counts := List.range (s.length + 1)
  let counts := if longest then counts.reverse else counts
  let found := counts.find? fun n =>
    pattern.stands (if atEnd then s.drop (s.length - n) else s.take n)
  match found with
  | some n => if atEnd then s.take (s.length - n) else s.drop n
  | none => s

end Shell
end Parley
