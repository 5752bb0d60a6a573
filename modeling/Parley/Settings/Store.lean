import Parley.Files.Basic
import Parley.Settings.Document

/-!
# Settings in files

Settings are loaded from a file and saved to one. A file that is missing stands for the defaults. A
project may have a file of its own; the user's file serves where there is none.
-/

set_option autoImplicit false

namespace Parley

inductive StoreFault
  /-- The user has no directory for settings. -/
  | noPlace
  | file (path : String) (fault : Files.Fault)
  deriving DecidableEq, Repr

def StoreFault.message : StoreFault → String
  | noPlace => "Could not determine config directory"
  | file path fault => "I/O error on " ++ path ++ ": " ++ fault.message

namespace Settings

/-- The settings in a file; the defaults if there is no such file or no settings in it. -/
def load (files : Files.Tree) (path : String) : Except StoreFault Settings :=
  if files.holds path then
    match files.readText path with
    | .ok text => .ok (parse text)
    | .error f => .error (.file path f)
  else .ok {}

/-- Writes a document to a file in a directory that is there; `document` is why there is no document
if it could not be made. -/
def writeDocument {ε : Type} (fault : StoreFault → ε) (document : Except ε String)
    (files : Files.Tree) (path : String) : Files.Tree × Except ε Unit :=
  match document with
  | .error e => (files, .error e)
  | .ok text =>
    match files.write path (Text.toBytes text) with
    | .ok files => (files, .ok ())
    | .error f => (files, .error (fault (.file path f)))

/-- Writes a document to a file. The directories it lies in are made before, if need be. -/
def saveDocument {ε : Type} (fault : StoreFault → ε) (document : Except ε String)
    (files : Files.Tree) (path : String) : Files.Tree × Except ε Unit :=
  match Files.parent? path with
  | none => writeDocument fault document files path
  | some parent =>
    match files.makeDirectories parent with
    | (files, .ok ()) => writeDocument fault document files path
    | (files, .error f) => (files, .error (fault (.file parent f)))

def save (s : Settings) (files : Files.Tree) (path : String) :
    Files.Tree × Except StoreFault Unit :=
  saveDocument id (.ok s.render) files path

end Settings

/-- The directory in a user's directories that holds what belongs to the program. -/
def programDirectory : String := "switchboard"

structure Places where
  /-- The settings of the project. -/
  project : String := "." ++ programDirectory ++ "/config.toml"
  user : Option String
  logs : Option String

namespace Places

/-- The variable of the environment that names a settings file. -/
def variableName : String := "SWITCHBOARD_CONFIG"

def ofDirectories (settings data : Option String) : Places :=
  { user := settings.map (· ++ "/" ++ programDirectory ++ "/config.toml")
    logs := data.map (· ++ "/" ++ programDirectory ++ "/logs") }

/-- The files with settings that exist, the one of the project first. -/
def discover (p : Places) (files : Files.Tree) : List String :=
  (p.project :: p.user.toList).filter files.holds

/-- The file that settings are read from and written to: the one that was asked for, or else the
first that exists, or else the one of the user. -/
def settingsPath (p : Places) (files : Files.Tree) (explicit : Option String) :
    Except StoreFault String :=
  match explicit, p.discover files, p.user with
  | some path, _, _ => .ok path
  | none, path :: _, _ => .ok path
  | none, [], some path => .ok path
  | none, [], none => .error .noPlace

/-- The settings in the file that was asked for, or else in the first that exists, or else the
defaults. -/
def loadSettings (p : Places) (files : Files.Tree) (explicit : Option String) :
    Except StoreFault Settings :=
  -- a file that was asked for counts even if it is not there: it stands for the defaults then
  match explicit, p.discover files with
  | some path, _ | none, path :: _ => Settings.load files path
  | none, [] => .ok {}

end Places
end Parley
