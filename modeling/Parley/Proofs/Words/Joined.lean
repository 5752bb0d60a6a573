import Parley.Proofs.Words.Comment
import Parley.Proofs.Words.Completion

/-!
# Lines of quoted words

Words that are quoted and joined by blanks are split into these words again, whatever characters they
have (`splitChars_intercalate`). More generally a quoted word may stand wherever a word may start
(`MayStart`), in front of the end of the line or of a separator: there it is read as the word it
spells, and what stands before and behind it is read on its own (`splitChars_around_quoteChars`). So
the text of a completion that is put there stands for what the completion displays
(`split_intercalate_quote`).
-/

set_option autoImplicit false

namespace Parley.Words

open Place

/-- A word may start behind the text: the reader stands between two words there, and no `#` of the
text has opened a comment. -/
def MayStart (cs : List Char) : Prop := between.after cs = between ∧ ¬HidesHash cs

instance (cs : List Char) : Decidable (MayStart cs) := inferInstanceAs (Decidable (_ ∧ _))

/-- A word ends in front of the text. -/
def EndsWord (cs : List Char) : Prop := ∀ c ∈ cs.head?, isSeparator c = true

theorem endsWord_cons_iff {c : Char} {cs : List Char} :
    EndsWord (c :: cs) ↔ isSeparator c = true :=
  ⟨fun h => h c rfl, fun h _ hd => Option.some.inj hd ▸ h⟩

instance : (cs : List Char) → Decidable (EndsWord cs)
  | [] => .isTrue nofun
  | _ :: _ => decidable_of_iff _ endsWord_cons_iff.symm

/-- A separator keeps the reader between words. -/
theorem splitChars_separator {c : Char} (h : isSeparator c = true) (cs : List Char) :
    splitChars (c :: cs) = splitChars cs := by
  have hquote := isSeparator_quote
  have hmarks : escapeHashes (c :: cs) = c :: escapeHashes cs := by
    simp [escapeHashes, escapeHashesFrom, Outline.begins, Outline.next, h]
  rw [splitChars, hmarks, readAll, read]
  grind [splitChars, readAll]

/-- In a word, what follows its end is read on its own. -/
theorem read_bare_of_endsWord {cs : List Char} (h : EndsWord cs) :
    read true bare (escapeHashesFrom { region := .bare } cs) =
      (splitChars cs).map ([] :: ·) := by
  cases cs with
  | nil => rfl
  | cons c cs =>
    have hc : isSeparator c = true := h c rfl
    have hquote := isSeparator_quote
    have hmarks : escapeHashesFrom { region := .bare } (c :: cs) = c :: escapeHashes cs := by
      simp [escapeHashes, escapeHashesFrom, Outline.begins, Outline.next, hc]
    rw [hmarks, splitChars_separator hc, read]
    grind [splitChars, readAll]

/-- A quoted word in front of the end of a word is the first word of a line. -/
theorem read_quoteChars_of_endsWord {o : Outline} (ho : o.IsUnquoted) (w : List Char)
    {cs : List Char} (h : EndsWord cs) :
    read true between (escapeHashesFrom o (quoteChars w ++ cs)) = (splitChars cs).map (w :: ·) := by
  rw [escapeHashesFrom_quoteChars ho, read_quoteChars, read_bare_of_endsWord h, Option.map_map]
  congr 1
  funext ws
  rw [Function.comp_apply, foldr_push, List.append_nil]

/-- **Quoted words** that are joined by blanks are split into these words. -/
theorem splitChars_intercalate (ws : List (List Char)) :
    splitChars ([' '].intercalate (ws.map quoteChars)) = some ws := by
  have hfirst : ∀ (w : List Char) {cs : List Char}, EndsWord cs →
      splitChars (quoteChars w ++ cs) = (splitChars cs).map (w :: ·) :=
    fun w _ => read_quoteChars_of_endsWord (.inl rfl) w
  induction ws with
  | nil => rfl
  | cons w ws ih =>
    cases ws with
    | nil =>
      have hend : EndsWord [] := nofun
      have hlast := hfirst w hend
      rw [List.append_nil, show splitChars [] = some [] from rfl] at hlast
      rw [List.map_singleton, List.intercalate_singleton, hlast]
      rfl
    | cons v ws =>
      have hends : EndsWord (' ' :: [' '].intercalate ((v :: ws).map quoteChars)) :=
        endsWord_cons_iff.2 rfl
      rw [List.map_cons, List.map_cons, List.intercalate_cons_cons, List.append_assoc,
        ← List.map_cons, List.singleton_append, hfirst w hends, splitChars_separator rfl, ih]
      rfl

/-- **A quoted word where a word may start** adds itself to the words around it. -/
theorem splitChars_around_quoteChars {before after : List Char} (hbefore : MayStart before)
    (hafter : EndsWord after) (w : List Char) :
    splitChars (before ++ quoteChars w ++ after) =
      (splitChars after).map fun vs => wordsBefore before ++ w :: vs := by
  obtain ⟨hgap, hhash⟩ := hbefore
  have hstart : between ≠ comment := nofun
  have hmisses : ¬Misses {} between before := fun h => hhash (misses_iff.1 h)
  have houtline : (before.foldl Outline.next {}).IsUnquoted := by
    have htrails := trails_after (.inl rfl) hstart before
    rw [hgap] at htrails
    exact htrails.imp id And.right
  have hread := read_marked hstart (.inl rfl) hmisses
    (escapeHashesFrom (before.foldl Outline.next {}) (quoteChars w ++ after))
  rw [hgap, read_quoteChars_of_endsWord houtline w hafter, Option.map_map] at hread
  rw [splitChars, readAll, List.append_assoc, escapeHashes, escapeHashesFrom_append]
  refine hread.trans (congrArg (Option.map · _) ?_)
  funext vs
  exact (emits_of_gap hgap _).1

/-- What stands in front of a place where a word may start is split into words. -/
theorem splitChars_of_mayStart {cs : List Char} (h : MayStart cs) :
    splitChars cs = some (wordsBefore cs) := by
  obtain ⟨hgap, hhash⟩ := h
  have hread := read_append (p := between) nofun cs []
  rw [List.append_nil, hgap] at hread
  rw [splitChars_eq_read hhash, hread]
  rfl

theorem toList_intercalate_quote (ws : List String) :
    (" ".intercalate (ws.map quote)).toList =
      [' '].intercalate ((ws.map String.toList).map quoteChars) := by
  have hquote : ∀ w : String, (quote w).toList = quoteChars w.toList := fun _ =>
    String.toList_ofList
  rw [String.toList_intercalate, List.map_map, List.map_map]
  simp only [Function.comp_def, hquote]
  rfl

/-- **Quoted words split back.** Words that are quoted and joined by blanks are split into these words,
whatever characters they have. So wherever a word may start, the text of a completion stands for the
word that the completion displays: put there, in front of the end of the line or of a separator, it
adds that word to the words before it and behind it. -/
theorem split_intercalate_quote :
    (∀ ws : List String, split (" ".intercalate (ws.map quote)) = .ok ws) ∧
      ∀ before after : String, MayStart before.toList → EndsWord after.toList →
        ∃ us, split before = .ok us ∧ ∀ vs, split after = .ok vs →
          ∀ (cursor : Cursor) (candidates : List String), ∀ c ∈ cursor.complete candidates,
            split (before ++ c.text ++ after) = .ok (us ++ c.display :: vs) := by
  constructor
  · intro ws
    have hsplit := splitChars_intercalate (ws.map String.toList)
    rw [← toList_intercalate_quote] at hsplit
    rw [split, hsplit]
    simp [Function.comp_def]
  · intro before after hbefore hafter
    refine ⟨(wordsBefore before.toList).map String.ofList, ?_,
      fun vs hvs cursor candidates c hc => ?_⟩
    · rw [split, splitChars_of_mayStart hbefore]
    · obtain ⟨w, -, rfl⟩ := List.mem_map.1 hc
      have haround := splitChars_around_quoteChars hbefore hafter w.toList
      have htext : (before ++ (cursor.completion w).text ++ after).toList =
          before.toList ++ quoteChars w.toList ++ after.toList := by
        simp [Cursor.completion, quote]
      rw [split] at hvs
      split at hvs
      · next ws hws =>
        cases hvs
        rw [split, htext, haround, hws]
        simp [Cursor.completion]
      · cases hvs

/-- A completion between words, behind an escaped line feed and a tab and in front of a line feed. -/
theorem split_intercalate_quote_hash :
    split (" ".intercalate (["", "#1", "it's\t\n", "a\\\"b"].map quote)) =
        .ok ["", "#1", "it's\t\n", "a\\\"b"] ∧
      MayStart "say \\\n'a'\t".toList ∧ EndsWord "\n#2".toList ∧
      split ("say \\\n'a'\t" ++ "'# 1'" ++ "\n#2") = .ok ["say", "a", "# 1", "#2"] := by
  have hbefore : MayStart "say \\\n'a'\t".toList := by decide
  have hafter : EndsWord "\n#2".toList := by decide
  obtain ⟨hjoined, hplaced⟩ := split_intercalate_quote
  obtain ⟨us, hus, hall⟩ := hplaced _ _ hbefore hafter
  have hwords : split "say \\\n'a'\t" = .ok ["say", "a"] := rfl
  cases hwords.symm.trans hus
  have hcompletion : (⟨"'# 1'", "# 1", 0⟩ : Completion) ∈
      Cursor.complete ⟨["say", "a"], "", false, 0, 0⟩ ["# 1", "b"] := by decide
  exact ⟨hjoined _, hbefore, hafter, hall ["#2"] rfl _ _ _ hcompletion⟩

end Parley.Words
