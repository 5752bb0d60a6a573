import Parley.Terminal.Basic
import Parley.Value.Printer

/-!
# What the terminal prints

The text of everything that is printed, plain or with colours. A colour is switched on before a text
and everything is switched off after it; where the text itself switches everything off, the colour
is switched on again.
-/

set_option autoImplicit false

namespace Parley

inductive Look
  | bold
  | dimmed
  | red
  | green
  | yellow
  | cyan
  deriving DecidableEq, Repr

namespace Look

def code : Look → List Char
  | bold => ['1']
  | dimmed => ['2']
  | red => ['3', '1']
  | green => ['3', '2']
  | yellow => ['3', '3']
  | cyan => ['3', '6']

def on (l : Look) : List Char := '\x1b' :: '[' :: l.code ++ ['m']

def off : List Char := ['\x1b', '[', '0', 'm']

/-- A text with the look switched on again wherever the text switches it off. -/
def renew (l : Look) : List Char → List Char
  | '\x1b' :: '[' :: '0' :: 'm' :: rest => off ++ l.on ++ renew l rest
  | c :: rest => c :: renew l rest
  | [] => []

def apply (color : Bool) (l : Look) (s : String) : String :=
  if color then String.ofList (l.on ++ l.renew s.toList ++ off) else s

end Look

namespace Style

def look : Style → Look
  | info => .cyan
  | success => .green
  | warning => .yellow
  | error => .red

end Style

namespace Print

/-- The text of a message: data that is no text is written as JSON, and null as nothing. -/
def messageText (m : Message) : String :=
  match m.data with
  | .text s => s
  | .null => ""
  | v => v.render

/-- What follows the text of a message: a line end, unless the message names something else. -/
def terminator (m : Message) : String :=
  ((m.extra.get? "end").bind Value.asText?).getD "\n"

/-- A message in the look of its style. -/
def renderMessage (color : Bool) (m : Message) : String :=
  let shown := match m.style? with
    | some style => style.look.apply color (messageText m)
    | none => messageText m
  shown ++ terminator m

/-- The text of what is printed. -/
def render (color : Bool) : Print → String
  | .message m => renderMessage color m
  | .prompt plain => Look.bold.apply color (if plain then "? " else "> ")
  | .lineEnd => "\n"
  | .noCompletions => Look.dimmed.apply color "No completions" ++ "\n"
  | .completed line => line ++ "\n"
  | .menu displays => Look.dimmed.apply color ("  ".intercalate displays) ++ "\n"

def renderAll (color : Bool) (ps : List Print) : String := String.join (ps.map (render color))

end Print
end Parley
