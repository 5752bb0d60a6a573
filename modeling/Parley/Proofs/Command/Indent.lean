import Parley.Command.Builtin
import Parley.Proofs.Text.Blank
import Parley.Session.Input

/-!
# Command lines behind blanks

A session takes a line for a command line whatever blanks it begins with (`Stage.commandLine?`). The
registry completes a line only if the sigil is its first character, so that such a line has no
completions (`Registry.completions_of_indent`), where it would have some without its blanks
(`Registry.completions_eq_iff`).
-/

set_option autoImplicit false

namespace Parley

namespace Words.Cursor

theorem complete_eq_nil {c : Cursor} {ws : List String} :
    c.complete ws = [] ↔ ∀ w ∈ ws, c.admits w = false := by
  rw [complete, List.map_eq_nil_iff, List.filter_eq_nil_iff]
  simp only [Bool.not_eq_true]

end Words.Cursor

namespace Registry

open Words

/-- A line that begins with a blank has no completions. -/
theorem completions_of_indent (r : Registry) {line : String} (h : Text.trimStart line ≠ line) :
    r.completions line = .ok [] := by
  obtain ⟨c, cs, hline, hblank⟩ := Text.trimStart_ne_self h
  have hc : c ≠ sigil := by
    rintro rfl
    exact absurd hblank (by decide)
  rw [completions, afterSigil?, hline]
  simp only [hc, if_false]

/-- **Completion and dispatch** agree on a command line exactly if it begins with the sigil, or if
nothing would be offered without its leading blanks: behind blanks a command line has no
completions, though a session runs it like the line without them. -/
theorem completions_eq_iff (r : Registry) {line rest : String}
    (h : Stage.commandLine? line = some rest) :
    (r.completions line = r.completions (Text.trimStart line) ↔
        Text.trimStart line = line ∨
          ∃ c, Cursor.ofLine rest = .ok c ∧ ∀ w ∈ r.candidates c, c.admits w = false) ∧
      (Text.trimStart line ≠ line → r.completions line = .ok []) := by
  refine ⟨?_, r.completions_of_indent⟩
  by_cases hindent : Text.trimStart line = line
  · rw [hindent]
    exact iff_of_true rfl (.inl rfl)
  · have hsigil : afterSigil? (Text.trimStart line) = some rest := h
    rw [r.completions_of_indent hindent, or_iff_right hindent]
    cases hcursor : Cursor.ofLine rest with
    | error f =>
      have htrimmed : r.completions (Text.trimStart line) = .error f := by
        simp only [completions, hsigil, hcursor]
      rw [htrimmed]
      exact iff_of_false nofun nofun
    | ok c =>
      have htrimmed : r.completions (Text.trimStart line) = .ok (c.complete (r.candidates c)) := by
        simp only [completions, hsigil, hcursor]
      simp only [htrimmed, Except.ok.injEq, exists_eq_left']
      exact eq_comm.trans Cursor.complete_eq_nil

theorem completions_eq_iff_indented :
    Stage.commandLine? " /cl" = some "cl" ∧
      (ofCommands Command.builtins).completions " /cl" ≠
        (ofCommands Command.builtins).completions (Text.trimStart " /cl") := by
  have hline : Stage.commandLine? " /cl" = some "cl" := by decide
  refine ⟨hline, fun h => ?_⟩
  rcases ((ofCommands Command.builtins).completions_eq_iff hline).1.1 h with hsame | ⟨c, hc, hnone⟩
  · exact absurd hsame (by decide)
  · cases hc
    exact absurd (hnone "clear" (by decide)) (by decide)

/-- Behind a blank the built-in command that a line begins is not offered. -/
theorem indented_line_uncompleted :
    Stage.commandLine? " /cl" = some "cl" ∧
      (ofCommands Command.builtins).completions " /cl" = .ok [] ∧
      (ofCommands Command.builtins).completions (Text.trimStart " /cl") =
        .ok [{ text := "clear", display := "clear", position := -2 }] := by
  refine ⟨?_, rfl, rfl⟩
  decide

end Registry
end Parley
