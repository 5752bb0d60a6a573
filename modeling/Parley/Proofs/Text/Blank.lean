import Mathlib.Data.List.TakeWhile
import Parley.Text.Blank

/-!
# When a text is blank

Trimming leaves nothing of a text exactly if all its characters are blank (`isEmpty_trim`), and
takes something off its start only if that is a blank (`trimStart_ne_self`).
-/

set_option autoImplicit false

namespace Parley.Text

theorem trimStartChars_eq_nil {cs : List Char} :
    trimStartChars cs = [] ↔ ∀ c ∈ cs, isBlank c = true := List.dropWhile_eq_nil_iff

/-- What is left without leading blanks does not begin with one. -/
theorem isBlank_head_trimStartChars {cs rest : List Char} {c : Char}
    (h : trimStartChars cs = c :: rest) : isBlank c = false := by
  have hhead := List.head?_dropWhile_not isBlank cs
  rw [show cs.dropWhile isBlank = c :: rest from h] at hhead
  exact hhead

theorem trimChars_eq_nil {cs : List Char} : trimChars cs = [] ↔ ∀ c ∈ cs, isBlank c = true := by
  rw [trimChars, List.reverse_eq_nil_iff, trimStartChars_eq_nil]
  constructor
  · intro h
    rw [← trimStartChars_eq_nil]
    cases hcs : trimStartChars cs with
    | nil => rfl
    | cons c rest =>
      have hc := h c (List.mem_reverse.2 (hcs ▸ List.mem_cons_self))
      rw [isBlank_head_trimStartChars hcs] at hc
      cases hc
  · intro h
    rw [trimStartChars_eq_nil.2 h]
    exact fun c hc => absurd hc List.not_mem_nil

theorem isEmpty_trim (s : String) : (trim s).isEmpty = s.toList.all isBlank := by
  rw [Bool.eq_iff_iff, String.isEmpty_iff, List.all_eq_true, ← trimChars_eq_nil, trim,
    ← String.toList_inj, String.toList_ofList]
  rfl

theorem trimStart_ne_self {s : String} (h : trimStart s ≠ s) :
    ∃ c cs, s.toList = c :: cs ∧ isBlank c = true := by
  cases hs : s.toList with
  | nil =>
    refine absurd ?_ h
    rw [trimStart, hs, ← String.toList_inj, String.toList_ofList, hs]
    rfl
  | cons c cs =>
    refine ⟨c, cs, rfl, ?_⟩
    rw [← Bool.not_eq_false]
    intro hc
    refine h ?_
    rw [trimStart, ← String.toList_inj, String.toList_ofList, trimStartChars, hs,
      List.dropWhile_cons_of_neg (by rw [hc]; exact Bool.false_ne_true)]

end Parley.Text
