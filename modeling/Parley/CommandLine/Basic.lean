import Parley.Settings.Store
import Parley.Settings.Upkeep

/-!
# The command line

What the arguments of the program ask for, and why arguments may ask for nothing that can be done.
-/

set_option autoImplicit false

namespace Parley

/-- What the program is asked to do. -/
structure Invocation where
  config : Option String := none
  /-- A delay in the place of the one in the file. -/
  delay : Option Nat := none
  /-- A directory for logs in the place of the one in the file. -/
  logDir : Option String := none
  /-- What to do with the settings file, instead of a session. -/
  upkeep : Option Upkeep := none
  deriving DecidableEq, Repr

inductive Refusal
  | helpWanted
  | versionWanted
  /-- Arguments that need one more word, for which the help is shown. -/
  | subcommandMissing
  | unknownArgument
  | unknownSubcommand
  | valueMissing
  /-- A value is given where none is taken. -/
  | valueUnneeded
  | invalidNumber
  | repeated
  deriving DecidableEq, Repr

namespace Invocation

/-- The settings of the program: those of the file, with what the arguments say in their place. -/
def settings (i : Invocation) (places : Places) (files : Files.Tree) :
    Except StoreFault Settings :=
  match places.loadSettings files i.config with
  | .error f => .error f
  | .ok s =>
    .ok { s with streamDelay := i.delay.getD s.streamDelay, logDir := i.logDir <|> s.logDir }

end Invocation
end Parley
