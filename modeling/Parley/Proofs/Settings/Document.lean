import Mathlib.Algebra.BigOperators.Group.List.Basic
import Parley.Proofs.Document.Lines
import Parley.Settings.Document

/-!
# Settings read back

The document of settings denotes these settings (`parse_render`), whatever characters their texts
have.
-/

set_option autoImplicit false

namespace Parley.Settings

open Document

/-! ## The values -/

/-- A text on a line of its own, after four blanks. -/
theorem skipGap_indented (s : String) (rest : List Char) :
    skipGap false ('\n' :: ("    ".toList ++ quoteChars s.toList ++ rest)) =
      quoteChars s.toList ++ rest := by
  rw [List.append_assoc]
  exact skipGap_quoteChars s.toList rest

/-- The lines of a list are read up to its closing bracket. -/
theorem items?_lines {fuel : Nat} (depth : Nat) {ss : List String} (hfuel : ss.length < fuel)
    (rest : List Char) :
    items? fuel depth (skipGap false ('\n' ::
      (ss.flatMap (fun s => "    ".toList ++ quoteChars s.toList ++ [',', '\n']) ++ ']' :: rest))) =
      some (ss.map .text, rest) := by
  induction ss generalizing fuel with
  | nil =>
    obtain ⟨fuel, rfl⟩ := Nat.exists_eq_succ_of_ne_zero (Nat.ne_zero_of_lt hfuel)
    rfl
  | cons s ss ih =>
    rw [List.length_cons] at hfuel
    obtain ⟨fuel, rfl⟩ : ∃ n, fuel = n + 2 := ⟨fuel - 2, by omega⟩
    have hitem := items?_comma s.toList (ih (show ss.length < fuel + 1 by omega))
    rw [String.ofList_toList] at hitem
    rw [List.flatMap_cons, List.append_assoc, List.append_assoc, skipGap_indented]
    exact hitem

/-- The written list stands for the list of its texts. -/
theorem denotes_listChars (ss : List String) :
    Denotes (listChars ss) (.list false (ss.map .text)) := by
  unfold listChars
  split
  · refine denotes_list [']'] fun fuel rest hfuel => ?_
    obtain ⟨fuel, rfl⟩ := Nat.exists_eq_succ_of_ne_zero (Nat.ne_zero_of_lt hfuel)
    rfl
  · next s =>
    refine denotes_list (quoteChars s.toList ++ [']']) fun fuel rest hfuel => ?_
    obtain ⟨q, ds, hq, -⟩ := exists_quoteChars_eq s.toList
    obtain ⟨fuel, rfl⟩ : ∃ n, fuel = n + 2 := ⟨fuel - 2, by simp [hq] at hfuel; omega⟩
    have hitem := items?_last fuel (maxDepth - 1) s.toList rest
    rw [String.ofList_toList] at hitem
    rw [List.append_assoc, skipGap_quoteChars]
    exact hitem
  · refine denotes_list ('\n' :: (_ ++ [']'])) fun fuel rest hfuel => ?_
    have hlines : ss.length ≤ (ss.flatMap fun s =>
        "    ".toList ++ quoteChars s.toList ++ [',', '\n']).length := by
      rw [List.length_flatMap, ← List.length_map (f := fun s : String =>
        ("    ".toList ++ quoteChars s.toList ++ [',', '\n']).length)]
      refine List.length_le_sum_of_one_le _ fun n hn => ?_
      obtain ⟨s, -, rfl⟩ := List.mem_map.mp hn
      simp
    have hread := items?_lines (maxDepth - 1) (show ss.length < fuel by
      simp only [List.length_cons, List.length_append] at hfuel
      omega) rest
    rw [List.cons_append, List.append_assoc]
    exact hread

/-! ## The document -/

/-- The entries of the document. -/
def entries (s : Settings) : List Entry :=
  [⟨⟨[], Setting.exitWords.name⟩, .list false (s.exitWords.map .text)⟩,
    ⟨⟨[], Setting.streamDelay.name⟩, .int s.streamDelay⟩,
    ⟨⟨[], Setting.confirmClear.name⟩, .bool s.confirmClear⟩] ++
    s.logDir.toList.map fun dir => ⟨⟨[], logDirKey⟩, .text dir⟩

theorem lineChars_eq_entryChars (key : String) (value : List Char) :
    lineChars key value = entryChars key value := rfl

theorem writtenLines_chars {s : Settings} (h : s.streamDelay < delayBound) :
    WrittenLines s.chars s.entries := by
  have hdelay : Denotes (s.get .streamDelay).toList (.int s.streamDelay) := by
    have hmax : (s.streamDelay : Int) ≤ maxInt := by
      have hbound : (delayBound : Int) ≤ maxInt := by decide
      omega
    rw [get, Nat.toString_eq_ofList_toDigits, String.toList_ofList]
    exact denotes_toDigits hmax
  have hconfirm : Denotes (s.get .confirmClear).toList (.bool s.confirmClear) := by
    rw [get]
    cases s.confirmClear
    · exact denotes_false
    · exact denotes_true
  have hlines : ∀ {cs : List Char} {es : List Entry}, WrittenLines cs es →
      WrittenLines
        (entryChars Setting.exitWords.name (listChars s.exitWords) ++
          (entryChars Setting.streamDelay.name (s.get .streamDelay).toList ++
            (entryChars Setting.confirmClear.name (s.get .confirmClear).toList ++ cs)))
        (⟨⟨[], Setting.exitWords.name⟩, .list false (s.exitWords.map .text)⟩ ::
          ⟨⟨[], Setting.streamDelay.name⟩, .int s.streamDelay⟩ ::
            ⟨⟨[], Setting.confirmClear.name⟩, .bool s.confirmClear⟩ :: es) := fun hlast =>
    .cons (by decide) (denotes_listChars s.exitWords)
      (.cons (by decide) hdelay (.cons (by decide) hconfirm hlast))
  simp only [chars, entries, lineChars_eq_entryChars, List.append_assoc]
  cases s.logDir with
  | none => exact hlines .nil
  | some dir =>
    have hdir := denotes_quoteChars dir.toList
    rw [String.ofList_toList] at hdir
    have hkey : IsBareKey logDirKey := by decide
    have hlast := WrittenLines.cons hkey hdir .nil
    rw [List.append_nil] at hlast
    exact hlines hlast

theorem texts?_list (byHeaders : Bool) (ss : List String) :
    texts? (.list byHeaders (ss.map .text)) = some ss := by
  rw [texts?]
  induction ss with
  | nil => rfl
  | cons s ss ih =>
    rw [List.map_cons, List.mapM_cons, ih]
    rfl

/-- **The document of settings denotes these settings.** -/
theorem parse_render {s : Settings} (h : s.streamDelay < delayBound) : parse s.render = s := by
  have hnames : (s.entries.map (·.path.name)).Nodup := by
    unfold entries
    cases s.logDir <;> simp <;> decide
  have hread := (writtenLines_chars h).read?_eq hnames
  rw [parse, render, hread]
  obtain ⟨exitWords, streamDelay, confirmClear, logDir⟩ := s
  cases logDir <;>
    simp [entries, ofFields?, field?, List.lookup_cons, Setting.name, logDirKey, texts?_list,
      delay?, bool?, text?, show streamDelay < delayBound from h]

end Parley.Settings
