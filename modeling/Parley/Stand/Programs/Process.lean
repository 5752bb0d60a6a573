import Parley.Files.Basic

/-!
# Processes

A process sees a tree of files, reads its input, and prints to ports: number 1 is for what it
prints, number 2 for its complaints. A port leads to a pipe or to the end of a file. A program is
what it does to the process that runs it.
-/

set_option autoImplicit false

namespace Parley

inductive Port
  /-- A pipe, by its number. -/
  | pipe (n : Nat)
  | file (l : Files.Location)
  deriving DecidableEq, Repr

structure Process where
  files : Files.Tree
  /-- What has been printed into each pipe; the first two lead out. -/
  pipes : List (List UInt8) := [[], []]
  input : List UInt8 := []
  /-- The ports that are open, by number. -/
  ports : List (Nat × Port) := [(1, .pipe 0), (2, .pipe 1)]
  status : Nat := 0

/-- What a program does on its arguments. -/
abbrev Programs.Program := Process → List String → Process

namespace Process

/-- Prints to a port. A file that has been removed takes nothing; a port that is closed makes the
program fail. -/
def print (p : Process) (number : Nat) (content : List UInt8) : Process :=
  if content.isEmpty then p
  else
  match p.ports.lookup number with
  | some (.pipe n) => { p with pipes := p.pipes.modify n (· ++ content) }
  | some (.file l) =>
    match p.files.entryAt? l with
    | some (.file held) => { p with files := p.files.put l (.file (held ++ content)) }
    | _ => p
  | none => { p with status := 1 }

/-- Whether what the process prints goes to the file of a path. -/
def printsTo (p : Process) (path : String) : Bool :=
  match p.files.find path, p.ports.lookup 1 with
  | .ok (l, _), some (.file k) => l = k
  | _, _ => false

def printed (p : Process) (n : Nat) : List UInt8 := p.pipes[n]?.getD []

def fail (p : Process) (status : Nat) (complaint : String) : Process :=
  { p.print 2 (Text.toBytes (complaint ++ "\n")) with status }

def failOn (p : Process) (program path : String) (f : Files.Fault) : Process :=
  p.fail 1 (program ++ ": " ++ path ++ ": " ++ f.reason)

end Process
end Parley
