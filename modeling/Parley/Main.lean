import Parley.Command.Builtin
import Parley.CommandLine.Reader
import Parley.Terminal.Play
import Parley.Text.Lines

/-!
# The program

Reads the arguments, the environment, the settings files and the lines of standard input, and prints
what the session prints. Everything that is decided is decided in the modules it calls.
-/

set_option autoImplicit false

open Parley

namespace Parley.Console

def usage : String :=
  "Usage: parley [--config FILE] [--delay-ms N] [--log-dir DIR] [config show|edit|reset]"

def version : String := "parley 0.1.0"

/-- What is said about arguments that ask for nothing that can be done. -/
def complaint : Refusal → String
  | .helpWanted | .versionWanted | .subcommandMissing => usage
  | .unknownArgument => "error: unexpected argument"
  | .unknownSubcommand => "error: unrecognized subcommand"
  | .valueMissing => "error: a value is required"
  | .valueUnneeded => "error: unexpected value"
  | .invalidNumber => "error: invalid value for '--delay-ms'"
  | .repeated => "error: an option cannot be used multiple times"

def refuse (r : Refusal) : IO UInt32 := do
  match r with
  | .helpWanted => IO.println usage; return 0
  | .versionWanted => IO.println version; return 0
  | r => IO.eprintln (complaint r); return 2

/-! ## Files -/

/-- A variable of the environment that holds an absolute path, or else a directory of the home
directory. -/
def userDirectory (name inHome : String) : IO (Option String) := do
  match ← IO.getEnv name with
  | some dir => if dir.toList.head? = some '/' then return some dir
  | none => pure ()
  return (← IO.getEnv "HOME").map (· ++ inHome)

def findPlaces : IO Places := do
  return .ofDirectories (← userDirectory "XDG_CONFIG_HOME" "/.config")
    (← userDirectory "XDG_DATA_HOME" "/.local/share")

def look (files : Files.Tree) (path : String) : IO Files.Tree := do
  let parent := (Files.parent? path).getD ""
  try
    let content ← IO.FS.readBinFile path
    let files := (files.makeDirectories parent).1
    return (files.write path content.data.toList).toOption.getD files
  catch
    | .inappropriateType _ _ _ => return (files.makeDirectories path).1
    | _ => return files

/-- Brings a file to what it is in a tree. -/
def commit (before after : Files.Tree) (path : String) : IO Unit := do
  match before.read path, after.read path with
  | old, .ok content =>
    if old.toOption ≠ some content then
      match Files.parent? path with
      | some parent => if parent ≠ "" then IO.FS.createDirAll parent
      | none => pure ()
      IO.FS.writeBinFile path ⟨content.toArray⟩
  | .ok _, .error _ => IO.FS.removeFile path
  | .error _, .error _ => pure ()

/-- A launcher that knows no program. Whoever embeds the console gives it another. -/
def noPrograms : Launcher := fun _ _ _ => .error .notFound

/-- Does what is asked for with the settings file. -/
def keepUp (launch : Launcher) (u : Upkeep) (files : Files.Tree) (path : String) :
    IO UInt32 := do
  let command := Editor.command (← IO.getEnv Editor.visualName) (← IO.getEnv Editor.editorName)
  let did := u.run launch command files path
  commit files did.files path
  (← IO.getStdout).write ⟨did.output.toArray⟩
  match did.result with
  | .ok () => return 0
  | .error f => IO.eprintln ("Error: " ++ f.message); return 1

/-! ## Sessions -/

def printNew (color : Bool) (count : Nat) (p : Play) : IO Nat := do
  let out ← IO.getStdout
  out.putStr (Print.renderAll color (p.printed.drop count))
  out.flush
  return p.printed.length

def readLine : IO (Option String) := do
  return (Text.lines (Text.toBytes (← (← IO.getStdin).getLine))).head?

/-- Runs a session until the terminal has ended. -/
partial def converse (color : Bool) (count : Nat) (p : Play) : IO Play := do
  let p := p.settle
  let count ← printNew color count p
  if p.isEnded then return p
  if p.terminal?.any (·.pending.isSome) then
    match ← readLine with
    | some line => converse color count (p.enter [line])
    | none => converse color count p.endInput
  else
    match p.world.nextWake? with
    | some time =>
      IO.sleep (UInt32.ofNat (time - p.world.clock))
      converse color count { p with world := p.world.moveClock time }
    | none => return p

def talk (settings : Settings) : IO UInt32 := do
  let color := (← IO.getEnv "NO_COLOR").isNone && (← (← IO.getStdout).isTty)
  let context : Context := { settings, registry := .ofCommands Command.builtins }
  let p ← converse color 0 (Play.start context [] [] false)
  match p.fault?, p.sessionResult? with
  | some fault, _ => IO.eprintln ("Error: Failed to decode completions: " ++ fault); return 1
  | none, some (.error e) => IO.eprintln ("Error: " ++ e.message); return 1
  | none, _ => return 0

/-! ## Everything -/

def run (launch : Launcher) (i : Invocation) : IO UInt32 := do
  let places ← findPlaces
  let files ← (i.config.toList ++ places.project :: places.user.toList).foldlM look {}
  match i.upkeep with
  | some u =>
    match places.settingsPath files i.config with
    | .ok path => keepUp launch u files path
    | .error f => IO.eprintln ("Error: " ++ f.message); return 1
  | none =>
    match i.settings places files with
    | .ok settings => talk settings
    | .error f => IO.eprintln ("Error: " ++ f.message); return 1

end Parley.Console

def main (arguments : List String) : IO UInt32 := do
  match CommandLine.read (← IO.getEnv Places.variableName) arguments with
  | .ok i => Console.run Console.noPrograms i
  | .error r => Console.refuse r
