import Parley.Proofs.Words.Comment
import Parley.Proofs.Words.Completion

/-!
# Lines that are being typed

The tolerant reading of a line without line feeds is the strict one of the line with at most one
character less and at most one more: a backslash at its end that escapes nothing is dropped, and then
a quote that is open is closed (`splitTolerant_split`). So what the cursor of a half-typed line shows
fits every line that it may become: the complete words are the first words of that line, and the part
that is typed begins the next one (`Cursor.follows_typing`).
-/

set_option autoImplicit false

namespace Parley.Words

open Place

theorem split_of_splitChars {line : String} {ws : List (List Char)}
    (h : splitChars line.toList = some ws) : split line = .ok (ws.map String.ofList) := by
  rw [split, h]

theorem split_of_splitChars_none {line : String} (h : splitChars line.toList = none) :
    split line = .error ⟨line⟩ := by
  rw [split, h]

/-- A line without line feeds is split in two parts: the second one is read from where the first one
ends. -/
theorem splitChars_parts {cs ds : List Char} (h : '\n' ∉ cs ++ ds) :
    splitChars (cs ++ ds) = (read false (between.after cs) ds).map (between.emits cs) :=
  (splitChars_eq_read (not_hidesHash h)).trans (read_append (p := between) nofun cs ds)

/-- The words of a line are those of a first part, put in front of the words of what follows. -/
theorem exists_rest_of_split {line : String} (hline : '\n' ∉ line.toList) {cs ds : List Char}
    (hparts : line.toList = cs ++ ds) {ws : List String} (hsplit : split line = .ok ws) :
    ∃ vs, read false (between.after cs) ds = some vs ∧
      ws = (between.emits cs vs).map String.ofList := by
  rw [split, hparts, splitChars_parts (hparts ▸ hline)] at hsplit
  cases hread : read false (between.after cs) ds with
  | none =>
    rw [hread] at hsplit
    cases hsplit
  | some vs =>
    rw [hread] at hsplit
    exact ⟨vs, rfl, (Except.ok.inj hsplit).symm⟩

/-! ## Behind a backslash -/

/-- The character before the place is a backslash that escapes the next one. -/
def Place.isEscape : Place → Bool
  | escapeBetween | escapeBare | escapeDouble => true
  | _ => false

theorem escaped_outline {cs : List Char} (h : '\n' ∉ cs) :
    (outline cs).escaped = (between.after cs).isEscape := by
  have hplace : ∀ p : Place, p.toOutline.escaped = p.isEscape := by
    intro p
    cases p <;> rfl
  rw [← hplace, toOutline_after (p := between) nofun h]
  rfl

/-- What is kept of a half-typed line does not end behind a backslash that escapes nothing. -/
theorem isEscape_dropDangling {cs : List Char} (h : '\n' ∉ cs) :
    (between.after (dropDangling cs)).isEscape = false := by
  rw [← escaped_outline (not_mem_dropDangling h)]
  exact escaped_dropDangling cs

/-- A text that ends neither in a gap nor behind a backslash ends in a word. -/
theorem isOpen_after {cs : List Char} (hgap : between.after cs ≠ between)
    (hescape : (between.after cs).isEscape = false) : (between.after cs).isOpen = true := by
  have hcomment : between.after cs ≠ comment := after_ne_comment (p := between) nofun cs
  generalize between.after cs = p at *
  cases p <;> first | rfl | contradiction

/-- `kept` is the line without a backslash at its end, if that is one that escapes nothing. -/
def Keeps (line kept : String) : Prop :=
  line = if (between.after line.toList).isEscape then kept.push '\\' else kept

theorem keeps_dropDangling {line : String} (h : '\n' ∉ line.toList) :
    Keeps line (String.ofList (dropDangling line.toList)) := by
  rw [Keeps, ← escaped_outline h]
  rcases dropDangling_cases line.toList with ⟨hnot, hkept⟩ | ⟨hescaped, hkept⟩
  · rw [hnot, hkept, String.ofList_toList]
    rfl
  · rw [hescaped, if_pos rfl, ← String.toList_inj, String.toList_push, String.toList_ofList]
    exact hkept

/-! ## Closing a quote -/

/-- The quote that closes the one that is open at the place. -/
def Place.closing? : Place → Option Char
  | single => some '\''
  | double => some '"'
  | _ => none

/-- At a place that is not behind a backslash a text may end, or exactly one quote closes it. -/
theorem read_closing {p : Place} (hp : p ≠ comment) (h : p.isEscape = false) :
    (p.isQuoted = false ∧ read false p [] = some (rest p)) ∨
      p.isQuoted = true ∧ read false p [] = none ∧ ∃ q ∈ ['\'', '"'],
        ∀ q' ∈ ['\'', '"'], read false p [q'] = if q' = q then some (rest p) else none := by
  cases p with
  | comment => exact absurd rfl hp
  | between | bare => exact .inl ⟨rfl, rfl⟩
  | single =>
    exact .inr ⟨rfl, rfl, '\'', List.mem_cons_self,
      List.forall_mem_cons.2 ⟨rfl, List.forall_mem_singleton.2 rfl⟩⟩
  | double =>
    exact .inr ⟨rfl, rfl, '"', List.mem_cons_of_mem _ List.mem_cons_self,
      List.forall_mem_cons.2 ⟨rfl, List.forall_mem_singleton.2 rfl⟩⟩
  | escapeBetween | escapeBare | escapeDouble => cases h

/-- **The tolerant split succeeds and extends the strict one.** It keeps a line without line feeds but
for one backslash at its end that escapes nothing. If what is kept can be split, its words are the
result; otherwise a quote is open, exactly one of the two quotes closes it, and the words are those
of the closed line. -/
theorem splitTolerant_split {line : String} (hline : '\n' ∉ line.toList) :
    ∃ kept words inQuote, splitTolerant line = .ok (words, inQuote) ∧ Keeps line kept ∧
      ((inQuote = false ∧ split kept = .ok words) ∨
        (inQuote = true ∧ split kept = .error ⟨kept⟩ ∧ ∃ q ∈ ['\'', '"'],
          split (kept.push q) = .ok words ∧
            ∀ q' ∈ ['\'', '"'], q' ≠ q → split (kept.push q') = .error ⟨kept.push q'⟩)) := by
  let ks := dropDangling line.toList
  let p := between.after ks
  have hks : '\n' ∉ ks := not_mem_dropDangling hline
  have hparts : ∀ {ds}, '\n' ∉ ds →
      splitChars (ks ++ ds) = (read false p ds).map (between.emits ks) := fun hds =>
    splitChars_parts fun hm => (List.mem_append.1 hm).elim hks hds
  have hnil : splitChars ks = (read false p []).map (between.emits ks) := by
    rw [← hparts List.not_mem_nil, List.append_nil]
  refine ⟨String.ofList ks, (between.emits ks (rest p)).map String.ofList, p.isQuoted, ?_,
    keeps_dropDangling hline, ?_⟩
  · rw [splitTolerant, splitTolerantChars_eq hline]
  · rcases read_closing (after_ne_comment (p := between) nofun ks) (isEscape_dropDangling hline) with
      ⟨hquoted, hread⟩ | ⟨hquoted, hread, q, hq, hclose⟩
    · refine .inl ⟨hquoted, split_of_splitChars ?_⟩
      rw [String.toList_ofList, hnil, show read false p [] = _ from hread]
      rfl
    · have hpush : ∀ q' ∈ ['\'', '"'], splitChars ((String.ofList ks).push q').toList =
          if q' = q then some (between.emits ks (rest p)) else none := by
        intro q' hq'
        have hfeed : '\n' ∉ [q'] := fun hm => by
          rw [← List.mem_singleton.1 hm] at hq'
          simp at hq'
        rw [String.toList_push, String.toList_ofList, hparts hfeed,
          show read false p [q'] = _ from hclose q' hq']
        split <;> rfl
      refine .inr ⟨hquoted, split_of_splitChars_none ?_, q, hq, split_of_splitChars ?_,
        fun q' hq' hne => split_of_splitChars_none ?_⟩
      · rw [String.toList_ofList, hnil, show read false p [] = none from hread]
        rfl
      · rw [hpush q hq, if_pos rfl]
      · rw [hpush q' hq', if_neg hne]

/-- A line that ends in an open quote and a backslash behind it. -/
theorem splitTolerant_split_open : '\n' ∉ "say '#1' \"it's\\".toList ∧
    ∃ kept words, splitTolerant "say '#1' \"it's\\" = .ok (words, true) ∧
      Keeps "say '#1' \"it's\\" kept ∧ split kept = .error ⟨kept⟩ ∧
      ∃ q ∈ ['\'', '"'], split (kept.push q) = .ok words := by
  have hline : '\n' ∉ "say '#1' \"it's\\".toList := by decide
  obtain ⟨kept, words, inQuote, hwords, hkept, hcases⟩ := splitTolerant_split hline
  have htyped : splitTolerant "say '#1' \"it's\\" = .ok (["say", "#1", "it's"], true) := rfl
  cases htyped.symm.trans hwords
  obtain ⟨-, hopen, q, hq, hclosed, -⟩ := hcases.resolve_left (by simp)
  exact ⟨hline, kept, _, htyped, hkept, hopen, q, hq, hclosed⟩

/-! ## The cursor -/

/-- A half-typed line that ends in a gap has all its words before the cursor. -/
theorem Cursor.ofLine_of_gap {typed : String} (htyped : '\n' ∉ typed.toList)
    (hgap : between.after (dropDangling typed.toList) = between) :
    ∃ c, ofLine typed = .ok c ∧
      c.preceding = (between.emits (dropDangling typed.toList) []).map String.ofList ∧
      c.part = "" := by
  have hatGap : (outline (dropDangling typed.toList)).atGap = true := by
    rw [atGap_outline (not_mem_dropDangling htyped), hgap]
    rfl
  rw [ofLine, splitTolerantChars_eq htyped, hgap]
  refine ⟨_, rfl, ?_⟩
  simp only [ofTyped, hatGap, show between.isQuoted = false from rfl,
    show rest between = [] from rfl, Bool.not_false, Bool.true_and, Bool.true_or, if_true, and_self]

/-- A half-typed line that ends in a word has that word at the cursor, as far as it is typed. -/
theorem Cursor.ofLine_of_word {typed : String} (htyped : '\n' ∉ typed.toList)
    (hopen : between.after (dropDangling typed.toList) ≠ between) {us : List (List Char)}
    {u : List Char} (hwords : between.emits (dropDangling typed.toList) [[]] = us ++ [u]) :
    ∃ c, ofLine typed = .ok c ∧ c.preceding = us.map String.ofList ∧ c.part = String.ofList u := by
  have hatGap : (outline (dropDangling typed.toList)).atGap = false := by
    rw [atGap_outline (not_mem_dropDangling htyped)]
    exact beq_false_of_ne hopen
  have hne : (us ++ [u]).isEmpty = false := by simp
  rw [ofLine, splitTolerantChars_eq htyped, rest, if_neg hopen, hwords]
  refine ⟨_, rfl, ?_⟩
  simp only [ofTyped, hatGap, hne, Bool.and_false, Bool.false_or, Bool.false_eq_true, if_false,
    List.dropLast_concat, List.getLast?_concat, Option.getD_some, and_self]

/-- A word that begins with what is typed is offered when it is among the candidates. -/
theorem Cursor.completion_mem_complete {c : Cursor} {w : String} (h : c.part.toList <+: w.toList)
    {candidates : List String} (hw : w ∈ candidates) :
    c.completion w ∈ c.complete candidates :=
  List.mem_map_of_mem (List.mem_filter.2 ⟨hw, List.isPrefixOf_iff_prefix.2 h⟩)

/-- A cursor whose complete words are the first of `ws` and whose part begins the next one, if there
is one. -/
theorem Cursor.offers_next {c : Cursor} {ws rest : List String} (hws : ws = c.preceding ++ rest)
    (hend : rest = [] → c.part = "") (hnext : ∀ w ∈ rest.head?, c.part.toList <+: w.toList) :
    c.position ≤ ws.length ∧ c.preceding = ws.take c.position ∧
      (c.position = ws.length → c.part = "") ∧
      ∀ w, ws[c.position]? = some w → c.part.toList <+: w.toList ∧
        ∀ candidates, w ∈ candidates → c.completion w ∈ c.complete candidates := by
  have hlength : ws.length = c.position + rest.length := by
    rw [hws, List.length_append]
    rfl
  have hhead : ws[c.position]? = rest.head? := by
    rw [hws, Cursor.position, List.getElem?_append_right (Nat.le_refl _), Nat.sub_self,
      List.head?_eq_getElem?]
  refine ⟨hlength ▸ Nat.le_add_right _ _, ?_, fun h => hend ?_, fun w hw => ?_⟩
  · rw [hws]
    exact List.take_left.symm
  · exact List.length_eq_zero_iff.1 (by omega)
  · have hbegins := hnext w (hhead ▸ hw)
    exact ⟨hbegins, fun _ => Cursor.completion_mem_complete hbegins⟩

/-- **The cursor follows the typing.** However much of a line has been typed, its cursor shows the
first words of the line as complete, and the part that is typed begins the next word, if there is
one; so that word is offered when it is among the candidates. -/
theorem Cursor.follows_typing {line typed : String} {ws : List String} (hline : '\n' ∉ line.toList)
    (hsplit : split line = .ok ws) (htyped : typed.toList <+: line.toList) :
    ∃ c, Cursor.ofLine typed = .ok c ∧ c.position ≤ ws.length ∧
      c.preceding = ws.take c.position ∧ (c.position = ws.length → c.part = "") ∧
      ∀ w, ws[c.position]? = some w → c.part.toList <+: w.toList ∧
        ∀ candidates, w ∈ candidates → c.completion w ∈ c.complete candidates := by
  have hfeed : '\n' ∉ typed.toList := fun hm => hline (htyped.subset hm)
  obtain ⟨ks, hks⟩ : ∃ ks, dropDangling typed.toList = ks := ⟨_, rfl⟩
  obtain ⟨ds, hds⟩ : ∃ ds, line.toList = ks ++ ds := by
    obtain ⟨ds, hds⟩ := htyped
    rcases dropDangling_cases typed.toList with ⟨-, hkept⟩ | ⟨-, hkept⟩
    · exact ⟨ds, by rw [← hks, hkept, hds]⟩
    · exact ⟨'\\' :: ds, by rw [← hds, hkept, hks, List.append_assoc]; rfl⟩
  obtain ⟨vs, hvs, hws⟩ := exists_rest_of_split hline hds hsplit
  -- what is typed ends between words, or inside one
  by_cases hgap : between.after ks = between
  · obtain ⟨c, hc, hpreceding, hpart⟩ := Cursor.ofLine_of_gap hfeed (hks ▸ hgap)
    rw [(emits_of_gap hgap vs).1, List.map_append, ← hks, ← hpreceding] at hws
    refine ⟨c, hc, Cursor.offers_next hws (fun _ => hpart) fun w _ => ?_⟩
    rw [hpart]
    exact List.nil_prefix
  · have hopen := isOpen_after hgap (hks ▸ isEscape_dropDangling hfeed)
    obtain ⟨v, vs', rfl⟩ := List.exists_cons_of_ne_nil (ne_nil_of_read hopen hvs)
    obtain ⟨us, u, hemits⟩ := emits_cons between ks
    have hwords : between.emits ks [[]] = us ++ [u] := by
      rw [hemits, List.append_nil]
    obtain ⟨c, hc, hpreceding, hpart⟩ :=
      Cursor.ofLine_of_word hfeed (hks ▸ hgap) (hks ▸ hwords)
    rw [hemits, List.map_append, List.map_cons, ← hpreceding] at hws
    refine ⟨c, hc, Cursor.offers_next hws nofun fun w hw => ?_⟩
    obtain rfl := Option.some.inj hw
    rw [hpart, String.toList_ofList, String.toList_ofList]
    exact List.prefix_append u v

/-- A line cut behind a backslash, inside double quotes: the word is offered while it is typed. -/
theorem Cursor.follows_typing_quoted : '\n' ∉ "say \"a\\\"b c\" d".toList ∧
    split "say \"a\\\"b c\" d" = .ok ["say", "a\"b c", "d"] ∧
    ∃ c, Cursor.ofLine "say \"a\\" = .ok c ∧ c.preceding = ["say"] ∧ c.part = "a" ∧
      c.completion "a\"b c" ∈ c.complete ["a\"b c", "d"] := by
  have hline : '\n' ∉ "say \"a\\\"b c\" d".toList := by decide
  have hsplit : split "say \"a\\\"b c\" d" = .ok ["say", "a\"b c", "d"] := rfl
  have htyped : "say \"a\\".toList <+: "say \"a\\\"b c\" d".toList := by decide
  obtain ⟨c, hc, -, -, -, hnext⟩ := Cursor.follows_typing hline hsplit htyped
  have hcursor : Cursor.ofLine "say \"a\\" = .ok
      { preceding := ["say"], part := "a", inQuote := true, offset := 4, length := 7 } := rfl
  cases hcursor.symm.trans hc
  obtain ⟨-, hoffered⟩ := hnext "a\"b c" rfl
  exact ⟨hline, hsplit, _, hcursor, rfl, rfl, hoffered _ List.mem_cons_self⟩

end Parley.Words
