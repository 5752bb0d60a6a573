import Parley.Text.Blank
import Parley.Text.Numeral

/-!
# Settings

The settings of a session. Three of them have a name, a description and suggested values, and can be
read and changed as text while the session runs; the fourth is read from a file or given at the
start.
-/

set_option autoImplicit false

namespace Parley

structure Settings where
  /-- Lines that end the session. -/
  exitWords : List String := ["q", "quit"]
  /-- Milliseconds between chunks of a response. -/
  streamDelay : Nat := 40
  confirmClear : Bool := true
  logDir : Option String := none
  deriving DecidableEq, Repr

/-- A setting that can be changed while the session runs. -/
inductive Setting
  | exitWords
  | streamDelay
  | confirmClear
  deriving DecidableEq, Repr

namespace Setting

def all : List Setting := [exitWords, streamDelay, confirmClear]

def name : Setting → String
  | exitWords => "exit_words"
  | streamDelay => "stream_delay_ms"
  | confirmClear => "confirm_clear"

def names : List String := all.map name

def ofName? (s : String) : Option Setting := all.find? (·.name == s)

theorem ofName?_name (s : Setting) : ofName? s.name = some s := by cases s <;> rfl

def description : Setting → String
  | exitWords => "Comma-separated replies that end the session"
  | streamDelay => "Milliseconds between streamed output chunks"
  | confirmClear => "Ask for confirmation before /clear"

def suggestions : Setting → List String
  | exitWords => ["q,quit"]
  | streamDelay => ["0", "40", "200"]
  | confirmClear => ["true", "false"]

end Setting

inductive ValueFault
  | noExitWord
  | numeral (fault : Text.NumeralFault)
  | notBool
  deriving DecidableEq, Repr

def ValueFault.message : ValueFault → String
  | noExitWord => "at least one exit word is required"
  | numeral f => f.message
  | notBool => "provided string was not `true` or `false`"

structure InvalidValue where
  setting : Setting
  value : String
  fault : ValueFault
  deriving DecidableEq, Repr

def InvalidValue.message (e : InvalidValue) : String :=
  "Invalid value '" ++ e.value ++ "' for " ++ e.setting.name ++ ": " ++ e.fault.message

namespace Settings

/-- A delay is below this bound: it is kept in 64 bits. -/
def delayBound : Nat := Nat.pow 2 64

def get (s : Settings) : Setting → String
  | .exitWords => ",".intercalate s.exitWords
  | .streamDelay => toString s.streamDelay
  | .confirmClear => if s.confirmClear then "true" else "false"

/-- The exit words that a text lists between commas. -/
def parseExitWords (value : String) : List String :=
  ((Text.splitOnChar ',' value).map Text.trim).filter (!·.isEmpty)

def parseBool? : String → Option Bool
  | "true" => some true
  | "false" => some false
  | _ => none

/-- Changes one setting to the value that a text denotes. -/
def set (s : Settings) (setting : Setting) (value : String) : Except InvalidValue Settings :=
  match setting with
  | .exitWords =>
    match parseExitWords value with
    | [] => .error ⟨setting, value, .noExitWord⟩
    | words => .ok { s with exitWords := words }
  | .streamDelay =>
    match Text.readNumeral delayBound value with
    | .ok n => .ok { s with streamDelay := n }
    | .error f => .error ⟨setting, value, .numeral f⟩
  | .confirmClear =>
    match parseBool? value with
    | some b => .ok { s with confirmClear := b }
    | none => .error ⟨setting, value, .notBool⟩

/-- Whether a line, its outer blanks left out, is an exit word. -/
def isExitWord (s : Settings) (line : String) : Bool := s.exitWords.contains (Text.trim line)

end Settings
end Parley
