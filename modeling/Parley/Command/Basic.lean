import Parley.Command.Argument
import Parley.Message.Basic
import Parley.Session.Error
import Parley.Settings.Basic
import Parley.Words.Cursor

/-!
# Commands

A command has a name, declared arguments, a help text, candidates for completion, and a body. The
body is a `Script`: what the command does to the session it runs in, step by step. What a command
may know of the other commands is the `Directory`.
-/

set_option autoImplicit false

namespace Parley

def sigil : Char := '/'

/-- What a command does. -/
inductive Script
  | finish
  | fail (e : Error)
  | send (o : Outgoing) (next : Script)
  | look (next : Settings → Script)
  /-- Changes a setting; the answer is the error, if there is one. -/
  | change (setting : Setting) (value : String) (next : Option InvalidValue → Script)
  | forget (next : Script)
  /-- Asks a question until it is answered by yes, by no, or by an empty line, which stands for
  `default`. -/
  | ask (default : Bool) (next : Bool → Script)
  | collect (plain : Bool) (next : String → Script)

namespace Script

def say (text : String) (style : Style) : Script := .send (.styled text style) .finish

def tell (text : String) : Script := .send { data := .text text } .finish

end Script

/-- A command as the other commands see it. -/
structure Entry where
  name : String
  hidden : Bool
  helpLine : String
  deriving DecidableEq, Repr

abbrev Directory := List Entry

namespace Directory

def visible (d : Directory) : List Entry := d.filter (!·.hidden)

def names (d : Directory) : List String := d.visible.map (·.name)

def helpLines (d : Directory) : List String := d.visible.map (·.helpLine)

end Directory

structure Command where
  name : String
  arguments : List Argument
  help : String
  /-- A hidden command can be run, but is neither listed nor completed. -/
  hidden : Bool := false
  /-- The candidates for the argument at a position, after the given ones. -/
  candidates : Directory → List String → Nat → List String
  body : Directory → List String → Script

namespace Command

/-- The words of a literal argument are its candidates; other arguments have none. -/
def literalWords (arguments : List Argument) (position : Nat) : List String :=
  match argumentAt arguments position with
  | some a => if a.kind = .literal then a.descriptions else []
  | none => []

def usage (c : Command) : String :=
  " ".intercalate ((String.singleton sigil ++ c.name) :: c.arguments.map (·.usage))

/-- The column at which help texts begin. -/
def usageWidth : Nat := 40

def padRight (width : Nat) (s : String) : String :=
  s ++ String.ofList (List.replicate (width - s.length) ' ')

/-- The usage, padded to a column, and the help text. -/
def helpLine (c : Command) : String := padRight usageWidth c.usage ++ " " ++ c.help

def entry (c : Command) : Entry := { name := c.name, hidden := c.hidden, helpLine := c.helpLine }

/-- Checks the arguments and runs the body. Arguments that do not match are reported. -/
def script (c : Command) (d : Directory) (values : List String) : Script :=
  match checkArguments c.arguments values with
  | .ok () => c.body d values
  | .error f => .say (f.message ++ "\nUsage: " ++ c.usage) .error

end Command
end Parley
