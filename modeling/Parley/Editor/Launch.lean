import Parley.Editor.Basic
import Parley.Stand.Shell.Run

/-!
# A stand for editors

A launcher that knows the programs of a stand, which is a small system with a shell, in place of
those of a real one. Editors take their launcher as a parameter (`Editor.edit`), and nothing else in
the library depends on the stand.
-/

set_option autoImplicit false

namespace Parley.Editor

/-- How deep the commands of a script may lie in one another, and how often its loops may go
round. -/
def shellFuel : Nat := 1000000

/-- Runs a program by name, with the variables of its environment and nothing to read. -/
def launch (environment : List (String × String)) : Launcher := fun files name arguments =>
  match Programs.resolve files name with
  | .error f => .error f
  | .ok base =>
    let start : Process := { files }
    let leftBy := fun (p : Process) (ending : Ending) =>
      { files := { p.files with here := files.here }, output := p.printed 0, ending : Launched }
    match Programs.installed.lookup base with
    | some program => let p := program start arguments; .ok (leftBy p (.exited p.status))
    | none =>
      let s := Shell.start shellFuel start 1000 environment arguments
      .ok (leftBy s.toProcess (match s.halt with
        | some (.ended e) => e
        | _ => .exited s.status))

end Parley.Editor
