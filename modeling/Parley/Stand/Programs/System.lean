import Parley.Stand.Programs.Basic
import Parley.Stand.Programs.Condition

/-!
# The system that programs run in

A tree with the usual directories, and the programs in it by name or by path.
-/

set_option autoImplicit false

namespace Parley.Programs

def shell : String := "sh"

def installed : List (String × Program) := ("test", test) :: ("[", bracket) :: all

/-- The directories that hold the programs. -/
def directories : List Files.Location := [["bin"], ["usr", "bin"]]

/-- What stands for a program in a file: no text. -/
def image : List UInt8 := [0x7f, 0x45, 0x4c, 0x46, 0xff]

/-- A tree with the directories of a system, the programs in it, and a directory to work in. -/
def system : Files.Tree :=
  { here := ["tmp", "work"]
    entries :=
      ([["boot"], ["dev"], ["etc"], ["home"], ["lib"], ["media"], ["mnt"], ["opt"], ["proc"],
        ["root"], ["run"], ["sbin"], ["srv"], ["sys"], ["tmp"], ["tmp", "work"], ["usr"],
        ["usr", "lib"], ["usr", "local"], ["usr", "local", "bin"], ["usr", "sbin"],
        ["usr", "share"], ["var"], ["var", "lib"], ["var", "log"], ["var", "tmp"]] ++
        directories).map (·, .directory) ++
      directories.flatMap (fun d =>
        (shell :: installed.map Prod.fst).map fun name => (d ++ [name], .file image)) ++
      [["dev", "null"], ["etc", "group"], ["etc", "hosts"], ["etc", "passwd"]].map (·, .file []) }

def programAt? (files : Files.Tree) (l : Files.Location) : Option String :=
  match files.entryAt? l, l.getLast? with
  | some (.file _), some name =>
    if directories.contains l.dropLast && (name = shell || (installed.lookup name).isSome) then
      some name
    else none
  | _, _ => none

/-- The program of a name: one that is looked up, or a path that leads to a program. A path to
anything else leads to no program. -/
def resolve (files : Files.Tree) (name : String) : Except Files.Fault String :=
  if name.toList.contains '/' then
    match files.find name with
    | .error f => .error f
    | .ok (l, _) =>
      match programAt? files l with
      | some name => .ok name
      | none => .error .denied
  else if name = "." || name = ".." then .error .denied
  else if Files.Tree.maxNameSize < name.utf8ByteSize then .error .nameTooLong
  else
    match directories.findSome? fun d => programAt? files (d ++ [name]) with
    | some name => .ok name
    | none => .error .notFound

end Parley.Programs
