import Parley.Proofs.Words.Typing

/-!
# Cutting a half-typed line

A text without line feeds may be cut at a gap: the tolerant reading takes each part on its own, and
puts the words of the first part in front of those of the second (`splitTolerantChars_append`). Each
word begins behind a gap, and as many begin as are read (`exists_cut_at`); so a half-typed line is cut
between its words where `wordOffset` says that they begin (`splitTolerant_at_wordOffset`).
-/

set_option autoImplicit false

namespace Parley.Words

open Place

/-! ## Where words begin -/

/-- The words of a text begin one behind the other, and in the text. -/
theorem startsFrom_increasing (o : Outline) (n : Nat) (cs : List Char) :
    (startsFrom o n cs).Pairwise (· < ·) ∧ ∀ y ∈ startsFrom o n cs, n ≤ y ∧ y < n + cs.length := by
  induction cs generalizing o n with
  | nil => exact ⟨.nil, nofun⟩
  | cons c cs ih =>
    obtain ⟨hsorted, hbounds⟩ := ih (o.next c) (n + 1)
    have hlater : ∀ y ∈ startsFrom (o.next c) (n + 1) cs, n < y ∧ y < n + (c :: cs).length := by
      intro y hy
      have hy := hbounds y hy
      rw [List.length_cons]
      omega
    rw [startsFrom]
    split
    · refine ⟨List.pairwise_cons.2 ⟨fun y hy => (hlater y hy).1, hsorted⟩, fun y hy => ?_⟩
      rcases List.mem_cons.1 hy with rfl | hy
      · rw [List.length_cons]
        omega
      · exact ⟨Nat.le_of_lt (hlater y hy).1, (hlater y hy).2⟩
    · exact ⟨hsorted, fun y hy => ⟨Nat.le_of_lt (hlater y hy).1, (hlater y hy).2⟩⟩

/-- No word begins behind the end of the text. -/
theorem wordOffsetChars_le (cs : List Char) (count : Nat) : wordOffsetChars cs count ≤ cs.length := by
  cases count with
  | zero => exact Nat.le_refl _
  | succ n =>
    rw [wordOffsetChars]
    cases hstart : (starts cs)[n]? with
    | none => exact Nat.le_refl _
    | some y =>
      have hbounds := (startsFrom_increasing {} 0 cs).2 y (List.mem_of_getElem? hstart)
      rw [Option.getD_some]
      omega

theorem wordOffsetChars_of_lt {cs : List Char} {k : Nat} (h : k < (starts cs).length) :
    wordOffsetChars cs (k + 1) = (starts cs)[k] := by
  rw [wordOffsetChars, List.getElem?_eq_getElem h, Option.getD_some]

/-- Word offsets increase from word to word. -/
theorem wordOffsetChars_lt {cs : List Char} {j k : Nat} (hjk : j < k)
    (h : k < (starts cs).length) : wordOffsetChars cs (j + 1) < wordOffsetChars cs (k + 1) := by
  rw [wordOffsetChars_of_lt h, wordOffsetChars_of_lt (Nat.lt_trans hjk h)]
  exact List.pairwise_iff_getElem.1 (startsFrom_increasing {} 0 cs).1 j k _ h hjk

/-! ## Cutting at a gap -/

/-- As many words begin in a text that ends in a gap as it has. -/
theorem length_wordsBefore {cs : List Char} (hcs : '\n' ∉ cs) (hgap : between.after cs = between) :
    (wordsBefore cs).length = (starts cs).length := by
  have hstart : between ≠ comment := nofun
  have hwords : inWord (between.after cs) ≤ ([] : List (List Char)).length := by
    rw [hgap]
    exact Nat.le_refl 0
  have hlength := length_emits hstart hcs 0 [] hwords
  rw [hgap] at hlength
  exact hlength

/-- A backslash at the end that escapes nothing is the second part's. -/
theorem dropDangling_append {cs : List Char} (h : outline cs = {}) (ds : List Char) :
    dropDangling (cs ++ ds) = cs ++ dropDangling ds := by
  have houtline : outline (cs ++ ds) = outline ds := by
    rw [outline_append, h]
    rfl
  unfold dropDangling
  rw [houtline]
  cases hescaped : (outline ds).escaped with
  | false => rfl
  | true =>
    have hne : ds ≠ [] := by
      rintro rfl
      cases hescaped
    exact List.dropLast_append_of_ne_nil hne

/-- **What follows a gap is read on its own**, also in a line that is still being typed. -/
theorem splitTolerantChars_append {cs ds : List Char} (h : '\n' ∉ cs ++ ds)
    (hgap : between.after cs = between) :
    splitTolerantChars (cs ++ ds) =
      (splitTolerantChars ds).map fun t => { t with words := wordsBefore cs ++ t.words } := by
  have hcs : '\n' ∉ cs := fun hm => h (List.mem_append_left _ hm)
  have hds : '\n' ∉ ds := fun hm => h (List.mem_append_right _ hm)
  have hafter : between.after (cs ++ dropDangling ds) = between.after (dropDangling ds) := by
    rw [after, List.foldl_append, show cs.foldl next between = between from hgap, after]
  rw [splitTolerantChars_eq h, splitTolerantChars_eq hds,
    dropDangling_append (outline_of_gap hcs hgap), hafter, emits_append, hgap,
    (emits_of_gap hgap _).1]
  rfl

/-- A half-typed line that ends in a gap has the words before it, and no quote is open. -/
theorem splitTolerantChars_of_gap {cs : List Char} (hcs : '\n' ∉ cs)
    (hgap : between.after cs = between) : splitTolerantChars cs = some ⟨wordsBefore cs, false⟩ := by
  have happend : splitTolerantChars (cs ++ []) = _ :=
    splitTolerantChars_append (by rwa [List.append_nil]) hgap
  rw [List.append_nil] at happend
  rw [happend, show splitTolerantChars [] = some ⟨[], false⟩ from rfl, Option.map_some,
    List.append_nil]

/-! ## Cutting before a word -/

/-- A half-typed line has no more words than begin in it. -/
theorem length_words_le {cs : List Char} (hcs : '\n' ∉ cs) {t : Typed}
    (h : splitTolerantChars cs = some t) : t.words.length ≤ (starts cs).length := by
  rw [splitTolerantChars_eq hcs] at h
  obtain rfl := Option.some.inj h
  have hstart : between ≠ comment := nofun
  have hrest : (rest (between.after (dropDangling cs))).length =
      inWord (between.after (dropDangling cs)) := by
    unfold rest inWord
    split <;> rfl
  have hcount := length_emits hstart (not_mem_dropDangling hcs) 0 _ (Nat.le_of_eq hrest.symm)
  rw [hrest] at hcount
  have hkept : (starts (dropDangling cs)).length ≤ (starts cs).length := by
    rcases dropDangling_cases cs with ⟨-, hkept⟩ | ⟨-, hkept⟩
    · exact Nat.le_of_eq (by rw [hkept])
    · calc (starts (dropDangling cs)).length
          ≤ (starts (dropDangling cs ++ ['\\'])).length := by
            rw [starts, starts, startsFrom_append, List.length_append]
            exact Nat.le_add_right _ _
        _ = (starts cs).length := by rw [← hkept]
  exact Nat.le_trans (Nat.le_of_eq (Nat.add_right_cancel hcount)) hkept

/-- **Each word begins behind a gap.** What stands before the word with `k` words in front of it ends
in a gap and has these words; the word begins at its end. -/
theorem exists_cut_at {cs : List Char} (hcs : '\n' ∉ cs) {k : Nat} (h : k < (starts cs).length) :
    ∃ before behind, cs = before ++ behind ∧ between.after before = between ∧
      (wordsBefore before).length = k ∧ wordOffsetChars cs (k + 1) = before.length := by
  have hsplit : starts cs = (starts cs).take k ++ (starts cs)[k] :: (starts cs).drop (k + 1) := by
    rw [← List.drop_eq_getElem_cons h, List.take_append_drop]
  obtain ⟨a, c, b, hab, hplace, hstarts, hbegins⟩ := exists_cut hsplit
  have ha : '\n' ∉ a := fun hm => hcs (hab ▸ List.mem_append_left _ hm)
  have hgap : between.after a = between := by
    have hstart : between ≠ comment := nofun
    rw [show a.foldl Outline.next {} = _ from (toOutline_after hstart ha).symm,
      begins_toOutline (after_ne_comment hstart a)] at hbegins
    exact eq_of_beq (Bool.and_eq_true_iff.1 hbegins).1
  refine ⟨a, c :: b, hab, hgap, ?_, ?_⟩
  · rw [length_wordsBefore ha hgap, starts, hstarts, List.length_take]
    exact Nat.min_eq_left (Nat.le_of_lt h)
  · rw [wordOffsetChars_of_lt h, hplace, Nat.zero_add]

theorem splitTolerant_of_chars {line : String} {cs : List Char} (hcs : line.toList = cs) {t : Typed}
    (h : splitTolerantChars cs = some t) :
    splitTolerant line = .ok (t.words.map String.ofList, t.inQuote) := by
  rw [splitTolerant, hcs, h]

/-- The characters of a line before a place in it, and those from there on. -/
def cutAt (line : String) (n : Nat) : String × String :=
  (String.ofList (line.toList.take n), String.ofList (line.toList.drop n))

/-- **Word offsets cut a line at word boundaries.** A line without line feeds can be read while it is
being typed. Its words begin one behind the other, and within the line; cut where a word begins, the
line has the words before that one in its first part, where no quote is open, and that word and those
behind it in its second part, which ends as the line does. So the cursor cuts the line within it, and
no completion goes in behind the cursor. -/
theorem splitTolerant_at_wordOffset {line : String} (hline : '\n' ∉ line.toList) :
    ∃ ws inQuote, splitTolerant line = .ok (ws, inQuote) ∧
      (∀ k, 1 ≤ k → k ≤ ws.length →
        (∀ j, 1 ≤ j → j < k → wordOffset line j < wordOffset line k) ∧
        wordOffset line k ≤ line.length ∧
        splitTolerant (cutAt line (wordOffset line k)).1 = .ok (ws.take (k - 1), false) ∧
        splitTolerant (cutAt line (wordOffset line k)).2 = .ok (ws.drop (k - 1), inQuote)) ∧
      ∃ c, Cursor.ofLine line = .ok c ∧ c.length = line.length ∧ c.offset ≤ c.length ∧
        ∀ candidates, ∀ d ∈ c.complete candidates, d.position ≤ 0 := by
  obtain ⟨t, ht⟩ : ∃ t, splitTolerantChars line.toList = some t :=
    ⟨_, splitTolerantChars_eq hline⟩
  refine ⟨_, _, splitTolerant_of_chars rfl ht, fun k hk hle => ?_, ?_⟩
  · obtain ⟨k, rfl⟩ := Nat.exists_eq_succ_of_ne_zero (Nat.one_le_iff_ne_zero.1 hk)
    rw [List.length_map] at hle
    have hlt : k < (starts line.toList).length := Nat.lt_of_lt_of_le hle (length_words_le hline ht)
    obtain ⟨before, behind, hparts, hgap, hcount, hoffset⟩ := exists_cut_at hline hlt
    rw [hparts] at hline ht
    have hbefore : '\n' ∉ before := fun hm => hline (List.mem_append_left _ hm)
    rw [splitTolerantChars_append hline hgap] at ht
    obtain ⟨s, hs, rfl⟩ := Option.map_eq_some_iff.1 ht
    have hfirst : (cutAt line (wordOffset line (k + 1))).1.toList = before := by
      rw [cutAt, String.toList_ofList, wordOffset, hoffset, hparts, List.take_left]
    have hsecond : (cutAt line (wordOffset line (k + 1))).2.toList = behind := by
      rw [cutAt, String.toList_ofList, wordOffset, hoffset, hparts, List.drop_left]
    refine ⟨fun j hj hjk => ?_, ?_, ?_, ?_⟩
    · obtain ⟨j, rfl⟩ := Nat.exists_eq_succ_of_ne_zero (Nat.one_le_iff_ne_zero.1 hj)
      exact wordOffsetChars_lt (Nat.lt_of_succ_lt_succ hjk) hlt
    · rw [wordOffset, hoffset, ← String.length_toList, hparts, List.length_append]
      exact Nat.le_add_right _ _
    · rw [splitTolerant_of_chars hfirst (splitTolerantChars_of_gap hbefore hgap), List.map_append,
        Nat.succ_sub_one, ← hcount, ← List.length_map String.ofList, List.take_left]
    · rw [splitTolerant_of_chars hsecond hs, List.map_append, Nat.succ_sub_one, ← hcount,
        ← List.length_map String.ofList, List.drop_left]
  · obtain ⟨c, before, hc, -, hcut⟩ := Cursor.exists_ofLine hline
    have hlength := hcut.length
    have hwithin := hcut.within
    rw [← hlength] at hwithin
    rw [String.length_toList] at hlength
    refine ⟨c, hc, hlength, hwithin, fun candidates d hd => ?_⟩
    obtain ⟨w, -, rfl⟩ := List.mem_map.1 hd
    change (c.offset : Int) - c.length ≤ 0
    omega

/-- A line with a word of two bytes, an empty word, and a quote that is open in front of a backslash
that escapes nothing: it is cut before its last word. -/
theorem splitTolerant_at_wordOffset_quoted : '\n' ∉ "é '' a\"b c\\".toList ∧
    splitTolerant "é '' a\"b c\\" = .ok (["é", "", "ab c"], true) ∧
    wordOffset "é '' a\"b c\\" 3 = 5 ∧
    splitTolerant "é '' " = .ok (["é", ""], false) ∧
    splitTolerant "a\"b c\\" = .ok (["ab c"], true) := by
  have hline : '\n' ∉ "é '' a\"b c\\".toList := by decide
  have hwords : splitTolerant "é '' a\"b c\\" = .ok (["é", "", "ab c"], true) := rfl
  obtain ⟨ws, inQuote, hsplit, hcut, -⟩ := splitTolerant_at_wordOffset hline
  cases hwords.symm.trans hsplit
  obtain ⟨-, -, hfirst, hsecond⟩ := hcut 3 (by decide) (by decide)
  exact ⟨hline, hwords, rfl, hfirst, hsecond⟩

end Parley.Words
