import Mathlib.Data.List.DropRight
import Parley.Proofs.Text.Blank

/-!
# Trimmed texts and texts between separators

A text that has been trimmed is not changed by trimming again (`trim_trim`). The pieces of a text
are what stands between two separators next to each other (`mem_splitOnChar_iff`), and a text that
is put together from pieces is cut into these (`splitOnChar_intercalate`).
-/

set_option autoImplicit false

namespace Parley.Text

/-! ## Trimming -/

theorem trimChars_eq (cs : List Char) :
    trimChars cs = (trimStartChars cs).rdropWhile isBlank := rfl

/-- Trimming takes characters off the two ends. -/
theorem isInfix_trimChars (cs : List Char) : trimChars cs <:+: cs := by
  have hprefix : trimChars cs <+: trimStartChars cs := List.rdropWhile_prefix _ _
  exact hprefix.isInfix.trans (List.dropWhile_suffix _).isInfix

theorem trimChars_trimChars (cs : List Char) : trimChars (trimChars cs) = trimChars cs := by
  have hstart : trimStartChars (trimChars cs) = trimChars cs := by
    cases htrim : trimChars cs with
    | nil => rfl
    | cons c rest =>
      -- what begins the trimmed text begins the text without its leading blanks
      obtain ⟨tail, htail⟩ : trimChars cs <+: trimStartChars cs := List.rdropWhile_prefix _ _
      rw [htrim, List.cons_append] at htail
      have hc := isBlank_head_trimStartChars htail.symm
      rw [trimStartChars, List.dropWhile_cons_of_neg (by rw [hc]; exact Bool.false_ne_true)]
  rw [trimChars_eq, hstart, trimChars_eq, List.rdropWhile_idempotent]

theorem toList_trim (s : String) : (trim s).toList = trimChars s.toList := String.toList_ofList

theorem trim_trim (s : String) : trim (trim s) = trim s := by
  rw [← String.toList_inj, toList_trim, toList_trim, trimChars_trimChars]

theorem mem_of_mem_trim {s : String} {c : Char} (h : c ∈ (trim s).toList) : c ∈ s.toList := by
  rw [toList_trim] at h
  exact (isInfix_trimChars s.toList).subset h

/-! ## Pieces -/

theorem splitChars_eq_splitOn (sep : Char) (cs : List Char) : splitChars sep cs = cs.splitOn sep := by
  induction cs with
  | nil => rfl
  | cons c cs ih =>
    rw [splitChars, List.splitOn_cons_eq_if_modifyHead, ← ih]
    by_cases h : c = sep
    · rw [if_pos h, if_pos (by rw [h, beq_self_eq_true])]
    · rw [if_neg h, if_neg (by rw [beq_iff_eq]; exact h)]
      cases hpieces : splitChars sep cs with
      | nil => exact absurd hpieces (splitChars_ne_nil sep cs)
      | cons piece rest => rfl

/-- A text with a separator in it is cut there. -/
theorem splitChars_append_cons (sep : Char) (xs ys : List Char) :
    splitChars sep (xs ++ sep :: ys) = splitChars sep xs ++ splitChars sep ys := by
  simp only [splitChars_eq_splitOn, List.splitOn_append_cons_self]

theorem splitChars_of_not_mem {sep : Char} {cs : List Char} (h : sep ∉ cs) :
    splitChars sep cs = [cs] := by
  rw [splitChars_eq_splitOn, List.splitOn_eq_singleton h]

/-- The text `piece` stands in `cs` between two separators next to each other; the ends of `cs` count
as separators. -/
def IsPieceOf (sep : Char) (cs piece : List Char) : Prop :=
  sep ∉ piece ∧ ∃ before after, cs = before ++ piece ++ after ∧
    (before = [] ∨ before.getLast? = some sep) ∧ (after = [] ∨ after.head? = some sep)

theorem isPieceOf_of_mem {sep : Char} {cs piece : List Char} (h : piece ∈ splitChars sep cs) :
    IsPieceOf sep cs piece := by
  -- by induction on the length: behind the first separator the text is shorter
  induction hn : cs.length using Nat.strong_induction_on generalizing cs with
  | _ n ih =>
    by_cases hsep : sep ∈ cs
    · obtain ⟨xs, ys, rfl, hxs⟩ := List.eq_append_cons_of_mem hsep
      rw [splitChars_append_cons, splitChars_of_not_mem hxs, List.singleton_append] at h
      rcases List.mem_cons.1 h with rfl | h
      · exact ⟨hxs, [], sep :: ys, rfl, .inl rfl, .inr rfl⟩
      · have hlt : ys.length < n := by
          rw [← hn, List.length_append, List.length_cons]
          omega
        obtain ⟨hpiece, before, after, hys, hbefore, hafter⟩ := ih _ hlt h rfl
        refine ⟨hpiece, xs ++ sep :: before, after, by rw [hys]; simp, .inr ?_, hafter⟩
        rcases hbefore with rfl | hbefore
        · rw [List.getLast?_concat]
        · rw [List.getLast?_append, List.getLast?_cons, hbefore]
          rfl
    · rw [splitChars_of_not_mem hsep, List.mem_singleton] at h
      subst h
      exact ⟨hsep, [], [], by rw [List.append_nil, List.nil_append], .inl rfl, .inl rfl⟩

theorem mem_of_isPieceOf {sep : Char} {cs piece : List Char} (h : IsPieceOf sep cs piece) :
    piece ∈ splitChars sep cs := by
  obtain ⟨hsep, before, after, rfl, hbefore, hafter⟩ := h
  obtain ⟨rest, hrest⟩ : ∃ rest, splitChars sep (piece ++ after) = piece :: rest := by
    rcases hafter with rfl | hafter
    · rw [List.append_nil, splitChars_of_not_mem hsep]
      exact ⟨[], rfl⟩
    · obtain ⟨after, rfl⟩ := List.head?_eq_some_iff.1 hafter
      rw [splitChars_append_cons, splitChars_of_not_mem hsep]
      exact ⟨_, rfl⟩
  rw [List.append_assoc]
  rcases hbefore with rfl | hbefore
  · rw [List.nil_append, hrest]
    exact List.mem_cons_self
  · obtain ⟨init, rfl⟩ := List.getLast?_eq_some_iff.1 hbefore
    rw [List.append_assoc, List.singleton_append, splitChars_append_cons, hrest]
    exact List.mem_append_right _ List.mem_cons_self

/-- The pieces of a text are what it is cut into. -/
theorem mem_splitOnChar_iff {sep : Char} {s piece : String} :
    piece ∈ splitOnChar sep s ↔ IsPieceOf sep s.toList piece.toList := by
  rw [splitOnChar, List.mem_map]
  constructor
  · rintro ⟨cs, hcs, rfl⟩
    rw [String.toList_ofList]
    exact isPieceOf_of_mem hcs
  · exact fun h => ⟨piece.toList, mem_of_isPieceOf h, String.ofList_toList⟩

/-- Pieces that are put together are found again. -/
theorem splitOnChar_intercalate {sep : Char} {pieces : List String} (h : pieces ≠ [])
    (hsep : ∀ p ∈ pieces, sep ∉ p.toList) :
    splitOnChar sep ((String.singleton sep).intercalate pieces) = pieces := by
  have hmap : ∀ cs ∈ pieces.map String.toList, sep ∉ cs := by
    intro cs hcs
    obtain ⟨p, hp, rfl⟩ := List.mem_map.1 hcs
    exact hsep p hp
  rw [splitOnChar, splitChars_eq_splitOn, String.toList_intercalate, String.toList_singleton,
    List.splitOn_intercalate sep hmap (by simpa using h), List.map_map]
  simp [Function.comp_def]

end Parley.Text
