import Parley.Command.Basic

/-!
# The registry of commands

Commands in the order of their names, each name once. The registry resolves names, turns a command
line into what it does, and completes a half-typed one. `perm_insertByName` says that registering
adds a command and loses none.
-/

set_option autoImplicit false

namespace Parley

inductive CommandError
  | notApplicable (name : String)
  | duplicate (name : String)
  deriving DecidableEq, Repr

def CommandError.message : CommandError → String
  | notApplicable name => "Not applicable to invalid command '" ++ name ++ "'"
  | duplicate name => "Command already registered: " ++ name

structure Registry where
  /-- In the order of their names. -/
  commands : List Command := []

inductive Resolved
  | registered (c : Command)
  | invalid (name : String)

namespace Resolved

def name : Resolved → String
  | registered c => c.name
  | invalid name => name

def isValid : Resolved → Bool
  | registered _ => true
  | invalid _ => false

/-- The command, if the name stands for one. -/
def command : Resolved → Except CommandError Command
  | registered c => .ok c
  | invalid name => .error (.notApplicable name)

/-- What running it does: a name that stands for no command is reported. -/
def script (r : Resolved) (d : Directory) (values : List String) : Script :=
  match r with
  | registered c => c.script d values
  | invalid name =>
    .say (name ++ " is not a valid command. Use " ++ String.singleton sigil ++
      "help to see a list of all valid commands") .error

end Resolved

namespace Registry

/-- Puts a command in its place among commands sorted by name. -/
def insertByName (c : Command) : List Command → List Command
  | [] => [c]
  | d :: rest => if c.name < d.name then c :: d :: rest else d :: insertByName c rest

theorem perm_insertByName (c : Command) (cs : List Command) : (insertByName c cs).Perm (c :: cs) := by
  induction cs with
  | nil => exact .refl _
  | cons d rest ih =>
    rw [insertByName]
    split
    · exact .refl _
    · exact (ih.cons d).trans (.swap c d rest)

def register (r : Registry) (c : Command) : Except CommandError Registry :=
  if r.commands.any (·.name == c.name) then .error (.duplicate c.name)
  else .ok ⟨insertByName c r.commands⟩

/-- Registers commands one after the other; one whose name is taken is left out. -/
def ofCommands (cs : List Command) : Registry :=
  cs.foldl (fun r c => match r.register c with
    | .ok r => r
    | .error _ => r) {}

def resolve (r : Registry) (name : String) : Resolved :=
  match r.commands.find? (·.name == name) with
  | some c => .registered c
  | none => .invalid name

theorem name_resolve (r : Registry) (name : String) : (r.resolve name).name = name := by
  unfold resolve
  split
  · next c h =>
    have found := List.find?_some h
    exact eq_of_beq found
  · rfl

def directory (r : Registry) : Directory := r.commands.map (·.entry)

def visible (r : Registry) : List Command := r.commands.filter (!·.hidden)

def names (r : Registry) : List String := r.visible.map (·.name)

def helpLines (r : Registry) : List String := r.visible.map (·.helpLine)

/-- What a command line does; `rest` is the line after the sigil. -/
def lineScript (r : Registry) (rest : String) : Script :=
  match Words.split rest with
  | .error _ => .say "Invalid command syntax" .error
  -- a sigil alone names the command without a name
  | .ok [] => (r.resolve "").script r.directory []
  | .ok (name :: values) => (r.resolve name).script r.directory values

/-- The line after the sigil, if it begins with that. -/
def afterSigil? (line : String) : Option String :=
  match line.toList with
  | c :: cs => if c = sigil then some (String.ofList cs) else none
  | [] => none

theorem afterSigil?_eq_some_iff {line rest : String} :
    afterSigil? line = some rest ↔ line.toList = sigil :: rest.toList := by
  unfold afterSigil?
  rcases h : line.toList with _ | ⟨c, cs⟩
  · simp
  · by_cases hc : c = sigil
    · simp only [hc, if_true, Option.some.injEq, List.cons.injEq, true_and]
      exact ⟨fun e => e ▸ String.toList_ofList.symm, fun e => e ▸ String.ofList_toList⟩
    · simp [hc]

/-- The candidates for the word under the cursor. -/
def candidates (r : Registry) (c : Words.Cursor) : List String :=
  match c.preceding with
  | [] => r.names
  | name :: values =>
    match r.resolve name with
    | .registered command =>
      -- the first word is the name: arguments are counted from the second
      if command.hidden then [] else command.candidates r.directory values (c.position - 1)
    | .invalid _ => []

/-- The completions of a half-typed line, sigil included. A line that is no command line has
none. -/
def completions (r : Registry) (line : String) :
    Except Words.SyntaxFault (List Words.Completion) :=
  match afterSigil? line with
  | none => .ok []
  | some rest =>
    match Words.Cursor.ofLine rest with
    | .error f => .error f
    | .ok c => .ok (c.complete (r.candidates c))

end Registry
end Parley
