import Parley.Command.Builtin

/-!
# What the built-in commands ask for

A command line that is run with the built-in commands asks yes-or-no questions at most; it never
asks for a line of another kind (`onlyQuestions_lineScript`). And whatever it sends is part of the
conversation (`chats_lineScript`).
-/

set_option autoImplicit false

namespace Parley

/-- The script asks for no line except to have a question answered. -/
def Script.OnlyQuestions : Script → Prop
  | .finish | .fail _ => True
  | .send _ next | .forget next => next.OnlyQuestions
  | .look next => ∀ settings, (next settings).OnlyQuestions
  | .change _ _ next => ∀ e, (next e).OnlyQuestions
  | .ask _ next => ∀ b, (next b).OnlyQuestions
  | .collect _ _ => False

/-- The script sends to the conversation only, and asks for no line except to have a question
answered. -/
def Script.Chats : Script → Prop
  | .finish | .fail _ => True
  | .send o next => o.channel = Channel.default ∧ next.Chats
  | .forget next => next.Chats
  | .look next => ∀ settings, (next settings).Chats
  | .change _ _ next => ∀ e, (next e).Chats
  | .ask _ next => ∀ b, (next b).Chats
  | .collect _ _ => False

theorem Script.Chats.onlyQuestions {script : Script} (h : script.Chats) : script.OnlyQuestions := by
  induction script with
  | finish => trivial
  | fail e => trivial
  | send o next ih => exact ih h.2
  | forget next ih => exact ih h
  | look next ih => exact fun settings => ih settings (h settings)
  | change setting value next ih => exact fun e => ih e (h e)
  | ask default next ih => exact fun b => ih b (h b)
  | collect plain next ih => exact h

namespace Command

theorem chats_say (text : String) (style : Style) : (Script.say text style).Chats := ⟨rfl, trivial⟩

theorem chats_tell (text : String) : (Script.tell text).Chats := ⟨rfl, trivial⟩

theorem chats_help (d : Directory) (values : List String) :
    (helpCommand.body d values).Chats := by
  simp only [helpCommand]
  split
  · exact chats_tell _
  · split
    · exact chats_tell _
    · exact chats_say _ _

theorem chats_changeSetting (s : Setting) (value : String) :
    (changeSetting s value).Chats := by
  intro e
  cases e with
  | none => exact chats_say _ _
  | some e => exact chats_say _ _

theorem chats_config (d : Directory) (values : List String) :
    (configCommand.body d values).Chats := by
  simp only [configCommand]
  split
  · trivial
  · split
    · trivial
    · exact fun settings => chats_tell _
    · exact chats_changeSetting _ _

theorem chats_clear (d : Directory) (values : List String) :
    (clearCommand.body d values).Chats := by
  intro settings
  dsimp only
  split
  · refine ⟨rfl, fun yes => ?_⟩
    cases yes
    · exact chats_say _ _
    · exact chats_say _ _
  · exact chats_say _ _

theorem chats_script {c : Command} (hc : c ∈ builtins) (d : Directory)
    (values : List String) : (c.script d values).Chats := by
  unfold script
  split
  · simp only [builtins, List.mem_cons, List.not_mem_nil, or_false] at hc
    rcases hc with rfl | rfl | rfl
    · exact chats_help d values
    · exact chats_config d values
    · exact chats_clear d values
  · exact chats_say _ _

end Command

namespace Registry

theorem mem_of_register {r r' : Registry} {c d : Command} (h : r.register d = .ok r')
    (hc : c ∈ r'.commands) : c = d ∨ c ∈ r.commands := by
  unfold register at h
  split at h
  · cases h
  · cases h
    exact List.mem_cons.1 ((perm_insertByName d r.commands).mem_iff.1 hc)

/-- Registering commands one after the other adds no others. -/
theorem mem_of_mem_foldl {ds : List Command} {r : Registry} {c : Command}
    (h : c ∈ (ds.foldl (fun r c => match r.register c with
      | .ok r => r
      | .error _ => r) r).commands) : c ∈ ds ∨ c ∈ r.commands := by
  induction ds generalizing r with
  | nil => exact .inr h
  | cons d ds ih =>
    rcases ih h with h | h
    · exact .inl (List.mem_cons_of_mem _ h)
    · dsimp only at h
      split at h
      · next hr =>
        rcases mem_of_register hr h with rfl | h
        · exact .inl List.mem_cons_self
        · exact .inr h
      · exact .inr h

theorem mem_of_mem_ofCommands {cs : List Command} {c : Command} (h : c ∈ (ofCommands cs).commands) :
    c ∈ cs := (mem_of_mem_foldl h).resolve_right List.not_mem_nil

theorem chats_resolved (name : String) (d : Directory) (values : List String) :
    (((ofCommands Command.builtins).resolve name).script d values).Chats := by
  unfold resolve
  split
  · next h =>
    have hc := mem_of_mem_ofCommands (List.mem_of_find?_eq_some h)
    exact Command.chats_script hc d values
  · exact Command.chats_say _ _

/-- With the built-in commands a command line sends to the conversation only, and asks questions at
most. -/
theorem chats_lineScript (line : String) :
    ((ofCommands Command.builtins).lineScript line).Chats := by
  unfold lineScript
  split
  · exact Command.chats_say _ _
  · exact chats_resolved _ _ _
  · exact chats_resolved _ _ _

/-- With the built-in commands a command line asks questions at most. -/
theorem onlyQuestions_lineScript (line : String) :
    ((ofCommands Command.builtins).lineScript line).OnlyQuestions :=
  (chats_lineScript line).onlyQuestions

end Registry
end Parley
