import Parley.Document.Reader
import Parley.Settings.Basic

/-!
# Settings as a document

`render` writes settings as a document, one line for each. `parse` reads them back: a setting that
the document leaves out has its default, and a text that is no document of settings stands for the
defaults.
-/

set_option autoImplicit false

namespace Parley.Settings

/-! ## Writing -/

/-- A list of texts: on one line if it has at most one, else with a line for each. -/
def listChars : List String → List Char
  | [] => ['[', ']']
  | [s] => '[' :: Document.quoteChars s.toList ++ [']']
  | ss =>
    '[' :: '\n' ::
      ss.flatMap (fun s => "    ".toList ++ Document.quoteChars s.toList ++ [',', '\n']) ++ [']']

def lineChars (key : String) (value : List Char) : List Char :=
  key.toList ++ [' ', '=', ' '] ++ value ++ ['\n']

/-- The key of the directory for logs, which has no name among the settings that can be changed. -/
def logDirKey : String := "log_dir"

def chars (s : Settings) : List Char :=
  lineChars Setting.exitWords.name (listChars s.exitWords) ++
    lineChars Setting.streamDelay.name (s.get .streamDelay).toList ++
    lineChars Setting.confirmClear.name (s.get .confirmClear).toList ++
    match s.logDir with
    | some dir => lineChars logDirKey (Document.quoteChars dir.toList)
    | none => []

def render (s : Settings) : String := String.ofList s.chars

/-! ## Reading -/

def text? : Document.Node → Option String
  | .text s => some s
  | _ => none

def texts? : Document.Node → Option (List String)
  | .list _ items => items.mapM text?
  | _ => none

def delay? : Document.Node → Option Nat
  | .int n => if 0 ≤ n && n < (delayBound : Int) then some n.toNat else none
  | _ => none

def bool? : Document.Node → Option Bool
  | .bool b => some b
  | _ => none

/-- The value of a key; a key that is missing has the default. -/
def field? {α : Type} (fields : Document.Fields) (key : String) (default : α)
    (read : Document.Node → Option α) : Option α :=
  match fields.lookup key with
  | none => some default
  | some v => read v

/-- The settings in a document, if every one of them has a value of its kind. -/
def ofFields? (fields : Document.Fields) : Option Settings := do
  let standard : Settings := {}
  let exitWords ← field? fields Setting.exitWords.name standard.exitWords texts?
  let streamDelay ← field? fields Setting.streamDelay.name standard.streamDelay delay?
  let confirmClear ← field? fields Setting.confirmClear.name standard.confirmClear bool?
  let logDir ← field? fields logDirKey standard.logDir fun v => (text? v).map some
  some { exitWords, streamDelay, confirmClear, logDir }

/-- The settings that a text denotes; the defaults if it denotes none. -/
def parse (text : String) : Settings := ((Document.read? text).bind ofFields?).getD {}

end Parley.Settings
