import Parley.Editor.Ending
import Parley.Files.Basic
import Parley.Words.Grammar

/-!
# Editors

The editor is a command line given by the user: a program and its first arguments. The file to edit
is one more argument. How a program runs is left to a launcher.
-/

set_option autoImplicit false

namespace Parley

inductive EditorFault
  /-- A quote is left open in the command line. -/
  | openQuote (command : String)
  | noProgram
  | notLaunched (program : String) (fault : Files.Fault)
  /-- The program ended by a signal or with a status other than zero. -/
  | failed (program : String) (ending : Ending)
  deriving DecidableEq, Repr

def EditorFault.message : EditorFault → String
  | openQuote command =>
    "Failed to parse editor command '" ++ command ++ "': missing closing quote. " ++ advice
  | noProgram => "Editor command is empty. " ++ advice
  | notLaunched program fault =>
    "Failed to launch editor '" ++ program ++ "': " ++ fault.message ++ ". " ++ advice
  | failed program ending => "Editor '" ++ program ++ "' exited with status: " ++ ending.text
where
  advice : String := "Set $VISUAL or $EDITOR to a valid editor."

/-- What a program that has ended leaves behind. -/
structure Launched where
  files : Files.Tree
  output : List UInt8 := []
  ending : Ending := .exited 0

/-- How a program runs on its arguments, or why it does not start. -/
abbrev Launcher := Files.Tree → String → List String → Except Files.Fault Launched

namespace Editor

def visualName : String := "VISUAL"
def editorName : String := "EDITOR"

def standard : String := "vi"

def meaningful? (value : Option String) : Option String :=
  value.filter fun s => !(Text.trim s).isEmpty

/-- The command line of the editor: the first of the two that is more than blanks. -/
def command (visual editor : Option String) : String :=
  ((meaningful? visual) <|> (meaningful? editor)).getD standard

/-- The program of a command line and its arguments. A `#` where a word may start opens a comment. -/
def program (command : String) : Except EditorFault (String × List String) :=
  match Words.readAll command.toList with
  | none => .error (.openQuote command)
  | some [] => .error .noProgram
  | some (name :: arguments) => .ok (String.ofList name, arguments.map String.ofList)

def edit (launch : Launcher) (files : Files.Tree) (command path : String) :
    Files.Tree × List UInt8 × Except EditorFault Unit :=
  match program command with
  | .error f => (files, [], .error f)
  | .ok (name, arguments) =>
    match launch files name (arguments ++ [path]) with
    | .error f => (files, [], .error (.notLaunched name f))
    | .ok done =>
      (done.files, done.output,
        if done.ending = .exited 0 then .ok () else .error (.failed name done.ending))

end Editor
end Parley
