import Parley.Command.Registry

/-!
# Built-in commands

`/help` lists commands, `/config` shows and changes settings, `/clear` wipes the conversation.
-/

set_option autoImplicit false

namespace Parley.Command

/-- Shows the help lines of all visible commands, or of the named one. -/
def helpCommand : Command where
  name := "help"
  arguments := [{ kind := .optional, descriptions := ["command"] }]
  help := "Show information on available commands"
  candidates d _ position := if position = 0 then d.names else []
  body d values :=
    match values with
    | [] => .tell ("\n".intercalate d.helpLines)
    | name :: _ =>
      match d.find? (·.name == name) with
      | some e => .tell e.helpLine
      | none => .say ("Unknown command: " ++ name) .error

def showSetting (s : Setting) : Script :=
  .look fun settings => .tell (s.name ++ ": " ++ settings.get s ++ "\n" ++ s.description)

/-- Changes a setting and says so, or says why not. -/
def changeSetting (s : Setting) (value : String) : Script :=
  .change s value fun
    | none => .say (s.name ++ " set to " ++ value) .success
    | some e => .say e.message .error

def configCommand : Command where
  name := "config"
  arguments := [{ kind := .literal, descriptions := Setting.names },
    { kind := .optional, descriptions := ["value"] }]
  help := "Show or set a setting for this session"
  candidates _ values position :=
    match position, values with
    | 0, _ => Setting.names
    | 1, name :: _ => ((Setting.ofName? name).map Setting.suggestions).getD []
    | _, _ => []
  body _ values :=
    match values with
    | [] => .finish
    | name :: rest =>
      match Setting.ofName? name, rest with
      | none, _ => .finish
      | some s, [] => showSetting s
      | some s, value :: _ => changeSetting s value

def clearNow : Script := .forget (.say "Conversation cleared" .success)

/-- Clears the conversation, after a question unless the settings say otherwise. -/
def clearCommand : Command where
  name := "clear"
  arguments := []
  help := "Clear the current conversation"
  candidates _ _ _ := []
  body _ _ := .look fun settings =>
    if settings.confirmClear then
      .send { data := .text "Clear the conversation? (Y/n)" } <|
        .ask true fun yes => if yes then clearNow else .say "Conversation kept" .info
    else clearNow

def builtins : List Command := [helpCommand, configCommand, clearCommand]

end Parley.Command
