import Parley.CommandLine.Basic

/-!
# Reading the command line

Options come first: each takes a value, after an equals sign or as the next argument. Then a
subcommand may follow, which takes no options. An option is looked at only when the next one comes
or the arguments end, so that of two faults an unknown word is found first.
-/

set_option autoImplicit false

namespace Parley.CommandLine

/-! ## Arguments -/

inductive Form
  /-- Two dashes: no option follows. -/
  | divider
  | long (name : String) (value : Option String)
  /-- Letters after a dash, at least one. -/
  | short (first : Char)
  | plain

def cutValue (cs : List Char) : String × Option String :=
  match cs.span (· != '=') with
  | (name, []) => (String.ofList name, none)
  | (name, _ :: value) => (String.ofList name, some (String.ofList value))

def form (argument : String) : Form :=
  match argument.toList with
  | ['-', '-'] => .divider
  | '-' :: '-' :: cs =>
    let (name, value) := cutValue cs
    .long name value
  | '-' :: c :: _ => .short c
  | _ => .plain

inductive Flag
  | config
  | delay
  | logDir
  deriving DecidableEq, Repr

def Flag.ofName? : String → Option Flag
  | "config" => some .config
  | "delay-ms" => some .delay
  | "log-dir" => some .logDir
  | _ => none

/-! ## Options -/

def nonempty (value : String) : Except Refusal String :=
  if value.isEmpty then .error .valueMissing else .ok value

/-- Takes an option with its value, which is missing if the arguments ended before it. -/
def enter (i : Invocation) (flag : Flag) (value : Option String) : Except Refusal Invocation :=
  match value with
  | none => .error .valueMissing
  | some v =>
    match flag with
    | .config =>
      if i.config.isSome then .error .repeated
      else (nonempty v).map fun v => { i with config := some v }
    | .logDir =>
      if i.logDir.isSome then .error .repeated
      else (nonempty v).map fun v => { i with logDir := some v }
    | .delay =>
      if i.delay.isSome then .error .repeated
      else match Text.readNumeral Settings.delayBound v with
        | .ok n => .ok { i with delay := some n }
        | .error _ => .error .invalidNumber

structure Pending where
  flag : Flag
  value : Option String := none

def enterPending (i : Invocation) : Option Pending → Except Refusal Invocation
  | none => .ok i
  | some p => enter i p.flag p.value

/-- What the environment says counts where no file is given. -/
def enterEnvironment (i : Invocation) (config : Option String) : Except Refusal Invocation :=
  match i.config, config with
  | none, some v => enter i .config (some v)
  | _, _ => .ok i

def finish (i : Invocation) (pending : Option Pending) (environment : Option String) :
    Except Refusal Invocation :=
  match enterPending i pending with
  | .ok i => enterEnvironment i environment
  | .error r => .error r

/-! ## Subcommands -/

def upkeep? : String → Option Upkeep
  | "show" => some .display
  | "edit" => some .edit
  | "reset" => some .reset
  | _ => none

def subcommands : List String → List String
  | [] => ["config", "help"]
  | ["config"] => ["show", "edit", "reset", "help"]
  | _ => []

/-- Why help cannot be given, or that it is wanted: every word must be a subcommand of those before
it. -/
def helpFor (command : List String) : List String → Refusal
  | [] => .helpWanted
  | word :: rest =>
    if (subcommands command).contains word then helpFor (command ++ [word]) rest
    else .unknownSubcommand

/-- What is wrong with a word that is no subcommand of a command. -/
def strayWord (command : List String) : Refusal :=
  if (subcommands command).isEmpty then .unknownArgument else .unknownSubcommand

/-- What is wrong with a word after the divider: even a subcommand may not stand there. -/
def dividedWord (command : List String) (word : String) : Refusal :=
  if (subcommands command).contains word then .unknownArgument else strayWord command

def strayOption : Form → Refusal
  | .long "help" none | .short 'h' => .helpWanted
  | .long "help" (some _) => .valueUnneeded
  | _ => .unknownArgument

/-- The arguments after a complete subcommand. -/
def readNothing (command : List String) : List String → Except Refusal Unit
  | [] => .ok ()
  | argument :: rest =>
    match form argument with
    | .divider =>
      match rest with
      | [] => .ok ()
      | word :: _ => .error (dividedWord command word)
    | .plain => .error (strayWord command)
    | f => .error (strayOption f)

def readUpkeep : List String → Except Refusal Upkeep
  | [] => .error .subcommandMissing
  | argument :: rest =>
    match form argument with
    | .divider =>
      match rest with
      | [] => .error .subcommandMissing
      | word :: _ => .error (dividedWord ["config"] word)
    | .plain =>
      match upkeep? argument with
      | some u =>
        match readNothing ["config", argument] rest with
        | .ok () => .ok u
        | .error r => .error r
      | none =>
        .error (if argument = "help" then helpFor ["config"] rest else strayWord ["config"])
    | f => .error (strayOption f)

/-! ## All arguments -/

/-- The refusal that a word like help stands for, once what is pending has been taken. -/
def refuseAfter (i : Invocation) (pending : Option Pending) (r : Refusal) :
    Except Refusal Invocation :=
  match enterPending i pending with
  | .ok _ => .error r
  | .error fault => .error fault

/-- What the arguments ask for; `environment` is the settings file that the environment names. -/
def readFrom (environment : Option String) (i : Invocation) (pending : Option Pending) :
    List String → Except Refusal Invocation
  | [] => finish i pending environment
  | argument :: rest =>
    match form argument with
    | .divider =>
      match rest with
      | [] => finish i pending environment
      | word :: _ => .error (dividedWord [] word)
    | .long name value =>
      match Flag.ofName? name with
      | some flag =>
        match enterPending i pending with
        | .error r => .error r
        | .ok i =>
          match value with
          | none => readFrom environment i (some { flag }) rest
          | some v =>
            match enter i flag (some v) with
            | .ok i => readFrom environment i none rest
            | .error r => .error r
      | none =>
        match name, value with
        | "help", none => refuseAfter i pending .helpWanted
        | "version", none => refuseAfter i pending .versionWanted
        | "help", some _ | "version", some _ => .error .valueUnneeded
        | _, _ => .error .unknownArgument
    | .short 'h' => refuseAfter i pending .helpWanted
    | .short 'V' => refuseAfter i pending .versionWanted
    | .short _ => .error .unknownArgument
    | .plain =>
      match pending with
      | some { flag, value := none } =>
        readFrom environment i (some { flag, value := some argument }) rest
      | pending =>
        if argument = "config" then
          match readUpkeep rest with
          | .ok u => finish { i with upkeep := some u } pending environment
          | .error r => .error r
        else if argument = "help" then .error (helpFor [] rest)
        else .error .unknownSubcommand

/-- What the arguments of the program ask for; `environment` is the settings file that the
environment names. -/
def read (environment : Option String) (arguments : List String) : Except Refusal Invocation :=
  readFrom environment {} none arguments

end Parley.CommandLine
