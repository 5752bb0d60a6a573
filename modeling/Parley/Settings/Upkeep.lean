import Parley.Editor.Basic
import Parley.Settings.Store

/-!
# Upkeep of the settings file

A user can look at the settings in a file, edit the file, and remove it, which brings back the
defaults.
-/

set_option autoImplicit false

namespace Parley

/-- What can be done with the settings file. -/
inductive Upkeep
  | display
  | edit
  | reset
  deriving DecidableEq, Repr

inductive UpkeepFault
  | store (fault : StoreFault)
  | file (fault : Files.Fault)
  | editor (fault : EditorFault)
  deriving DecidableEq, Repr

def UpkeepFault.message : UpkeepFault → String
  | store f => f.message
  | file f => "IO error: " ++ f.message
  | editor f => "Process execution failed: " ++ f.message

structure UpkeepOutcome where
  files : Files.Tree
  output : List UInt8 := []
  result : Except UpkeepFault Unit := .ok ()

namespace Upkeep

/-- Shows the settings, and the file they are from. -/
def displayFile (files : Files.Tree) (path : String) : UpkeepOutcome :=
  match Settings.load files path with
  | .ok s =>
    { files
      output := Text.toBytes ("Config file: " ++ path ++ "\n\n" ++ s.render ++ "\n") }
  | .error f => { files, result := .error (.store f) }

def runEditor (launch : Launcher) (command : String) (files : Files.Tree) (path : String) :
    UpkeepOutcome :=
  match Editor.edit launch files command path with
  | (files, output, .ok ()) => { files, output }
  | (files, output, .error f) => { files, output, result := .error (.editor f) }

/-- Has the file edited. A file that is missing is made first, with the defaults. -/
def editFile (launch : Launcher) (command : String) (files : Files.Tree) (path : String) :
    UpkeepOutcome :=
  if files.holds path then runEditor launch command files path
  else
    match Settings.save {} files path with
    | (files, .error f) => { files, result := .error (.store f) }
    | (files, .ok ()) => runEditor launch command files path

def resetFile (files : Files.Tree) (path : String) : UpkeepOutcome :=
  if files.holds path then
    match files.remove path with
    | .ok files => { files, output := Text.toBytes "Config reset to defaults\n" }
    | .error f => { files, result := .error (.file f) }
  else { files, output := Text.toBytes "No config file found\n" }

/-- Does what is asked for with a file; `command` is the command line of the editor. -/
def run (u : Upkeep) (launch : Launcher) (command : String) (files : Files.Tree) (path : String) :
    UpkeepOutcome :=
  match u with
  | display => displayFile files path
  | edit => editFile launch command files path
  | reset => resetFile files path

end Upkeep
end Parley
