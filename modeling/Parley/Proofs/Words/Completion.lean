import Parley.Command.Builtin
import Parley.Proofs.Words.Quote

/-!
# Accepting a completion

A half-typed line without line feeds is always read (`closeQuote_eq`), and its cursor cuts it behind
a gap: the words before the cut are the preceding ones, and what follows is replaced
(`Cursor.exists_ofLine`). The exception is a line that ends in a lone backslash (`EndsAlone`): there
the cut comes after the backslash, which then takes the place of the first character of the
completion.

So a completion that is accepted makes a line of the preceding words and the candidate, which runs
the command that was typed with the candidate as its last argument, unless the line ends in a lone
backslash and the candidate needs quotes (`Registry.split_applyCompletion`).
-/

set_option autoImplicit false

namespace Parley.Words

open Place

/-! ## Dangling backslashes -/

theorem escaped_next {o : Outline} {c : Char} (h : (o.next c).escaped = true) :
    c = '\\' ∧ o.escaped = false := by
  unfold Outline.next at h
  split at h
  · cases h
  · next hescaped =>
    refine ⟨?_, by simpa using hescaped⟩
    unfold Outline.inWord at h
    grind

/-- A text is cut before its dangling backslash, if it ends in one. -/
theorem dropDangling_cases (cs : List Char) :
    ((outline cs).escaped = false ∧ dropDangling cs = cs) ∨
      ((outline cs).escaped = true ∧ cs = dropDangling cs ++ ['\\']) := by
  unfold dropDangling
  cases hescaped : (outline cs).escaped with
  | false => exact .inl ⟨rfl, rfl⟩
  | true =>
    refine .inr ⟨rfl, ?_⟩
    rcases List.eq_nil_or_concat cs with rfl | ⟨ks, c, rfl⟩
    · cases hescaped
    · rw [List.concat_eq_append] at hescaped ⊢
      rw [outline_append] at hescaped
      obtain ⟨rfl, -⟩ := escaped_next hescaped
      simp

theorem escaped_dropDangling (cs : List Char) : (outline (dropDangling cs)).escaped = false := by
  rcases dropDangling_cases cs with ⟨hnot, hkept⟩ | ⟨hescaped, hcs⟩
  · rw [hkept]
    exact hnot
  · rw [hcs, outline_append] at hescaped
    exact (escaped_next hescaped).2

theorem not_mem_dropDangling {cs : List Char} {c : Char} (h : c ∉ cs) : c ∉ dropDangling cs := by
  rcases dropDangling_cases cs with ⟨-, hkept⟩ | ⟨-, hkept⟩
  · rwa [hkept]
  · rw [hkept, List.mem_append, not_or] at h
    exact h.1

/-- The text ends in a backslash that escapes nothing and stands where a word may start. -/
def EndsAlone (cs : List Char) : Prop :=
  (outline cs).escaped = true ∧ (outline (dropDangling cs)).atGap = true

instance (cs : List Char) : Decidable (EndsAlone cs) := inferInstanceAs (Decidable (_ ∧ _))

/-! ## Half-typed lines are read -/

/-- What remains of the words at a place: the empty rest of the open one, if there is one. -/
def rest (p : Place) : List (List Char) := if p = between then [] else [[]]

/-- The place lies inside quotes. -/
def Place.isQuoted (p : Place) : Bool := p == single || p == double

/-- **A half-typed line is read**: as it is, or with its open quote closed. -/
theorem closeQuote_eq {cs : List Char} (hcs : '\n' ∉ cs) (h : (outline cs).escaped = false) :
    closeQuote cs =
      some ⟨between.emits cs (rest (between.after cs)), (between.after cs).isQuoted⟩ := by
  have hread := read_escapeHashes (p := between) nofun hcs
  have hplain := hread []
  rw [List.append_nil] at hplain
  have hcomment := after_ne_comment (p := between) nofun cs
  have hescaped : (between.after cs).toOutline.escaped = false := by
    have hstart : between ≠ comment := nofun
    rw [toOutline_after hstart hcs]
    exact h
  simp only [closeQuote, escapeHashes, readAll, show ({} : Outline) = between.toOutline from rfl,
    hplain, hread]
  generalize between.after cs = p at *
  cases p with
  | between | bare | single | double => simp [read, rest, isQuoted]
  | comment => exact absurd rfl hcomment
  | _ => cases hescaped

/-- The words of a half-typed line, and whether it ends in a quote. -/
theorem splitTolerantChars_eq {cs : List Char} (h : '\n' ∉ cs) :
    splitTolerantChars cs =
      some ⟨between.emits (dropDangling cs) (rest (between.after (dropDangling cs))),
        (between.after (dropDangling cs)).isQuoted⟩ :=
  closeQuote_eq (not_mem_dropDangling h) (escaped_dropDangling cs)

/-- A text without line feeds lies in a gap at its end exactly if the reader does. -/
theorem atGap_outline {cs : List Char} (h : '\n' ∉ cs) :
    (outline cs).atGap = (between.after cs == between) := by
  have hstart : between ≠ comment := nofun
  rw [outline, show ({} : Outline) = between.toOutline from rfl, ← toOutline_after hstart h]
  have hcomment := after_ne_comment hstart cs
  generalize between.after cs = p at hcomment
  cases p with
  | comment => exact absurd rfl hcomment
  | _ => rfl

/-! ## Where the words of a text begin -/

/-- A text can be cut where a word begins: the starts before the cut are those of the first part. -/
theorem exists_cut {o : Outline} {n : Nat} {cs : List Char} {xs ys : List Nat} {y : Nat}
    (h : startsFrom o n cs = xs ++ y :: ys) :
    ∃ a c b, cs = a ++ c :: b ∧ y = n + a.length ∧ startsFrom o n a = xs ∧
      (a.foldl Outline.next o).begins c = true := by
  induction cs generalizing o n xs with
  | nil => simp [startsFrom] at h
  | cons d ds ih =>
    rw [startsFrom] at h
    split at h
    · next hbegins =>
      rcases xs with _ | ⟨x, xs⟩
      · cases h
        exact ⟨[], d, ds, rfl, rfl, rfl, hbegins⟩
      · obtain ⟨rfl, htail⟩ := List.cons.inj h
        obtain ⟨a, c, b, rfl, rfl, hstarts, hc⟩ := ih htail
        refine ⟨d :: a, c, b, rfl, ?_, ?_, hc⟩
        · rw [List.length_cons]
          omega
        · rw [startsFrom, if_pos hbegins, hstarts]
    · next hbegins =>
      obtain ⟨a, c, b, rfl, rfl, hstarts, hc⟩ := ih h
      refine ⟨d :: a, c, b, rfl, ?_, ?_, hc⟩
      · rw [List.length_cons]
        omega
      · rw [startsFrom, if_neg hbegins, hstarts]

/-- A text in which no word begins is a gap. -/
theorem after_of_starts_nil {cs : List Char} (hcs : '\n' ∉ cs) (n : Nat)
    (h : startsFrom {} n cs = []) : between.after cs = between := by
  induction cs generalizing n with
  | nil => rfl
  | cons c cs ih =>
    rw [List.mem_cons, not_or] at hcs
    have hquote := isSeparator_quote
    have hbegins : Outline.begins {} c = !isSeparator c := begins_toOutline (p := between) nofun c
    rw [startsFrom, hbegins] at h
    cases hseparator : isSeparator c with
    | false =>
      rw [hseparator] at h
      cases h
    | true =>
      have hnext : between.next c = between := by
        simp only [next]
        grind
      have hgap : Outline.next {} c = {} := by
        rw [Outline.next, hseparator]
        rfl
      rw [hseparator, hgap] at h
      rw [show between.after (c :: cs) = (between.next c).after cs from rfl, hnext]
      exact ih hcs.2 (n + 1) h

/-- A text without line feeds that ends in a word is cut before that word: the words of the first
part are all but the last one. -/
theorem exists_last_word {cs : List Char} (hcs : '\n' ∉ cs) (hopen : between.after cs ≠ between) :
    ∃ a b, cs = a ++ b ∧ between.after a = between ∧
      (between.emits cs [[]]) ≠ [] ∧ (between.emits cs [[]]).dropLast = wordsBefore a ∧
      wordOffsetChars cs (between.emits cs [[]]).length = a.length := by
  have hin : inWord (between.after cs) = 1 := if_neg hopen
  have hlength := length_emits (p := between) nofun hcs 0 [[]] (Nat.le_of_eq hin)
  rw [hin, show inWord between = 0 from rfl] at hlength
  have hcount : (between.emits cs [[]]).length = (starts cs).length := by
    simp only [starts, List.length_singleton] at hlength ⊢
    exact Nat.add_right_cancel hlength
  rcases List.eq_nil_or_concat (starts cs) with hnone | ⟨xs, y, hxs⟩
  · exact absurd (after_of_starts_nil hcs 0 hnone) hopen
  · rw [List.concat_eq_append] at hxs
    obtain ⟨a, c, b, rfl, rfl, hstarts, hbegins⟩ := exists_cut hxs
    have ha : '\n' ∉ a := fun hm => hcs (List.mem_append_left _ hm)
    have hgap : between.after a = between := by
      have hstart : between ≠ comment := nofun
      rw [show a.foldl Outline.next {} = _ from (toOutline_after hstart ha).symm,
        begins_toOutline (after_ne_comment hstart a)] at hbegins
      simpa using (Bool.and_eq_true_iff.1 hbegins).1
    have hbefore := length_emits (p := between) nofun ha 0 [] (by rw [hgap]; exact Nat.le_refl 0)
    rw [hgap, show between.toOutline = {} from rfl, hstarts] at hbefore
    have hemits : between.emits (a ++ c :: b) [[]] =
        wordsBefore a ++ between.emits (c :: b) [[]] := by
      rw [emits_append, hgap]
      exact (emits_of_gap hgap _).1
    -- all words but one begin before the cut, so one word is left behind it
    have hcounted := hcount
    rw [hxs, hemits, List.length_append, List.length_append] at hcounted
    have hone : (between.emits (c :: b) [[]]).length = 1 := by
      simp only [wordsBefore, List.length_singleton, List.length_nil] at hcounted hbefore
      omega
    obtain ⟨w, hw⟩ := List.length_eq_one_iff.1 hone
    refine ⟨a, c :: b, rfl, hgap, ?_, ?_, ?_⟩
    · rw [hemits, hw]
      simp
    · rw [hemits, hw, List.dropLast_concat]
    · rw [hcount, hxs, List.length_append, List.length_singleton, wordOffsetChars, hxs]
      simp

/-! ## Where the cursor cuts a line -/

/-- How the cursor cuts a half-typed line: a completion keeps the text up to a gap, and the lone
backslash that the line may end in; the words up to the gap are the preceding ones. -/
structure Cut (line before : List Char) (c : Cursor) : Prop where
  gap : between.after before = between
  kept : line.take c.offset = before ++ if EndsAlone line then ['\\'] else []
  within : c.offset ≤ line.length
  length : c.length = line.length
  words : c.preceding = (wordsBefore before).map String.ofList

/-- A half-typed line that ends behind a gap, or in a lone backslash behind one, is kept as it is. -/
theorem cut_of_gap {cs : List Char} (hcs : '\n' ∉ dropDangling cs)
    (hgap : between.after (dropDangling cs) = between) :
    Cut cs (dropDangling cs) (Cursor.ofTyped cs ⟨wordsBefore (dropDangling cs), false⟩) := by
  have hatGap : (outline (dropDangling cs)).atGap = true := by
    rw [atGap_outline hcs, hgap]
    rfl
  simp only [Cursor.ofTyped, hatGap, Bool.not_false, Bool.true_and, Bool.true_or, if_true]
  refine ⟨hgap, ?_, Nat.le_refl _, rfl, rfl⟩
  rw [List.take_length]
  -- behind a gap the backslash that is dropped stands alone, and the cursor keeps it
  rcases dropDangling_cases cs with ⟨hnot, hkept⟩ | ⟨hescaped, hkept⟩
  · have halone : ¬EndsAlone cs := fun h => by
      have := hnot.symm.trans h.1
      cases this
    rw [if_neg halone, hkept, List.append_nil]
  · rw [if_pos ⟨hescaped, hatGap⟩]
    exact hkept

/-- A half-typed line that ends in a word is cut before that word. -/
theorem exists_cut_of_word {cs : List Char} (hcs : '\n' ∉ dropDangling cs)
    (hopen : between.after (dropDangling cs) ≠ between) (inQuote : Bool) :
    ∃ before, Cut cs before
      (Cursor.ofTyped cs ⟨between.emits (dropDangling cs) [[]], inQuote⟩) := by
  have hatGap : (outline (dropDangling cs)).atGap = false := by
    rw [atGap_outline hcs]
    exact beq_false_of_ne hopen
  have halone : ¬EndsAlone cs := fun h => by
    have := hatGap.symm.trans h.2
    cases this
  obtain ⟨a, b, hab, hgap, hne, hwords, hoffset⟩ := exists_last_word hcs hopen
  have hprefix : ∃ ds, cs = a ++ ds := by
    rcases dropDangling_cases cs with ⟨-, hkept⟩ | ⟨-, hkept⟩
    · exact ⟨b, hkept.symm.trans hab⟩
    · exact ⟨b ++ ['\\'], by rw [hkept, hab, List.append_assoc]⟩
  obtain ⟨ds, hds⟩ := hprefix
  simp only [Cursor.ofTyped, hatGap, Bool.and_false, Bool.false_or, List.isEmpty_iff, hne, if_false,
    hoffset, hwords]
  refine ⟨a, hgap, ?_, ?_, rfl, rfl⟩
  · rw [if_neg halone, List.append_nil, hds, List.take_left]
  · rw [hds, List.length_append]
    exact Nat.le_add_right _ _

/-- **The cursor of a half-typed line.** Every line without line feeds has one, behind a gap. -/
theorem Cursor.exists_ofLine {line : String} (hline : '\n' ∉ line.toList) :
    ∃ c before, Cursor.ofLine line = .ok c ∧ '\n' ∉ before ∧ Cut line.toList before c := by
  have hkept := not_mem_dropDangling hline
  have hfeed : ∀ {before c}, Cut line.toList before c → '\n' ∉ before := fun hcut hm =>
    hline (List.mem_of_mem_take (hcut.kept ▸ List.mem_append_left _ hm))
  rw [Cursor.ofLine, splitTolerantChars_eq hline]
  by_cases hgap : between.after (dropDangling line.toList) = between
  · have hcut := cut_of_gap hkept hgap
    rw [hgap]
    exact ⟨_, _, rfl, hfeed hcut, hcut⟩
  · obtain ⟨before, hcut⟩ := exists_cut_of_word hkept hgap
      (between.after (dropDangling line.toList)).isQuoted
    rw [rest, if_neg hgap]
    exact ⟨_, before, rfl, hfeed hcut, hcut⟩

/-! ## Accepting a completion -/

/-- A completion goes in behind the sigil and what the cursor keeps. -/
theorem toList_applyCompletion {line rest : String} {c : Cursor}
    (hsigil : line.toList = sigil :: rest.toList) {before : List Char}
    (hcut : Cut rest.toList before c) (candidate : String) :
    (applyCompletion line (c.completion candidate)).toList =
      sigil :: (before ++ (if EndsAlone rest.toList then ['\\'] else []) ++
        quoteChars candidate.toList) := by
  have hposition : (c.completion candidate).position.natAbs = rest.toList.length - c.offset := by
    have hwithin := hcut.within
    simp only [Cursor.completion, hcut.length]
    omega
  have hlength : line.toList.length - (rest.toList.length - c.offset) = c.offset + 1 := by
    have hwithin := hcut.within
    rw [hsigil, List.length_cons]
    omega
  simp only [applyCompletion, hposition, hlength, String.toList_append, String.toList_ofList]
  rw [hsigil, List.take_succ_cons, hcut.kept]
  simp [Cursor.completion, quote]

/-- The candidate stands for itself exactly if it is inserted as it is displayed. -/
theorem text_eq_display_iff {c : Cursor} {candidate : String} :
    (c.completion candidate).text = (c.completion candidate).display ↔
      IsPlain candidate.toList := by
  rw [← quoteChars_eq_self_iff, Cursor.completion, quote, ← String.toList_inj,
    String.toList_ofList]

end Parley.Words

namespace Parley.Registry

open Words

theorem split_ofList_iff {cs : List Char} {ws : List (List Char)} :
    split (String.ofList cs) = .ok (ws.map String.ofList) ↔ splitChars cs = some ws := by
  have hinj : ∀ vs : List (List Char), vs.map String.ofList = ws.map String.ofList ↔ vs = ws :=
    fun vs => List.map_inj_right fun _ _ => String.ofList_injective
  rw [split, String.toList_ofList]
  cases splitChars cs with
  | none => exact ⟨nofun, nofun⟩
  | some vs => rw [Except.ok.injEq, Option.some.injEq, hinj]

/-- What the words of a command line do. -/
def wordsScript (r : Registry) : List String → Script
  | [] => (r.resolve "").script r.directory []
  | name :: values => (r.resolve name).script r.directory values

theorem lineScript_of_split {r : Registry} {rest : String} {ws : List String}
    (h : split rest = .ok ws) : r.lineScript rest = r.wordsScript ws := by
  rw [lineScript, h]
  cases ws <;> rfl

/-- **Accepting a completion gives the line it promises**, unless the line ends in a lone backslash
and the candidate needs quotes. The completions of a line without line feeds can always be listed;
and the line that one of them makes begins with the sigil, and the words of the rest are the ones
before the cursor and then the candidate, exactly if the line does not end in a lone backslash or
the candidate is inserted as it is displayed. So the command runs with the candidate as its last
argument. -/
theorem split_applyCompletion (r : Registry) {line : String} (hline : '\n' ∉ line.toList) :
    ∃ cs, r.completions line = .ok cs ∧ ∀ c ∈ cs, ∃ rest cursor rest',
      afterSigil? line = some rest ∧ Cursor.ofLine rest = .ok cursor ∧
      afterSigil? (applyCompletion line c) = some rest' ∧
      (split rest' = .ok (cursor.preceding ++ [c.display]) ↔
        (EndsAlone rest.toList → c.text = c.display)) ∧
      ((EndsAlone rest.toList → c.text = c.display) →
        r.lineScript rest' = r.wordsScript (cursor.preceding ++ [c.display])) := by
  rw [completions]
  cases hsigil : afterSigil? line with
  | none => exact ⟨[], rfl, nofun⟩
  | some rest =>
    have hcons := afterSigil?_eq_some_iff.1 hsigil
    have hrest : '\n' ∉ rest.toList := fun hm => hline (hcons ▸ List.mem_cons_of_mem _ hm)
    obtain ⟨cursor, before, hcursor, hfeed, hcut⟩ := Cursor.exists_ofLine hrest
    simp only [hcursor]
    refine ⟨_, rfl, fun c hc => ?_⟩
    obtain ⟨candidate, -, rfl⟩ := List.mem_map.1 hc
    have happlied := toList_applyCompletion hcons hcut candidate
    refine ⟨rest, cursor, String.ofList (before ++ (if EndsAlone rest.toList then ['\\'] else []) ++
      quoteChars candidate.toList), rfl, hcursor, ?_, ?_⟩
    · rw [afterSigil?_eq_some_iff, happlied, String.toList_ofList]
    · have hsplit : split (String.ofList (before ++
            (if EndsAlone rest.toList then ['\\'] else []) ++ quoteChars candidate.toList)) =
          .ok (cursor.preceding ++ [candidate]) ↔
          (EndsAlone rest.toList → IsPlain candidate.toList) := by
        have hwords : cursor.preceding ++ [candidate] =
            (wordsBefore before ++ [candidate.toList]).map String.ofList := by
          rw [hcut.words, List.map_append, List.map_singleton, String.ofList_toList]
        rw [hwords, split_ofList_iff]
        split
        · next halone =>
          rw [List.append_assoc]
          exact (splitChars_backslash_quoteChars_iff hfeed hcut.gap).trans
            ⟨fun h _ => h, fun h => h halone⟩
        · next halone =>
          rw [List.append_nil]
          exact ⟨fun _ h => absurd h halone, fun _ => splitChars_quoteChars hfeed hcut.gap _⟩
      rw [← text_eq_display_iff (c := cursor)] at hsplit
      exact ⟨hsplit, fun h => lineScript_of_split (hsplit.2 h)⟩

/-- A command whose only argument is a text that needs quotes. -/
def greeting : Command where
  name := "say"
  arguments := [{ kind := .literal, descriptions := ["good day"] }]
  help := "Say it"
  candidates _ _ position :=
    Command.literalWords [{ kind := .literal, descriptions := ["good day"] }] position
  body _ values := .tell (" ".intercalate values)

theorem split_applyCompletion_greeting : '\n' ∉ "/say 'go".toList ∧
    ∃ rest' : String, split rest' = .ok ["say", "good day"] ∧
      (ofCommands [greeting]).lineScript rest' =
        ((ofCommands [greeting]).resolve "say").script (ofCommands [greeting]).directory
          ["good day"] := by
  have hline : '\n' ∉ "/say 'go".toList := by decide
  obtain ⟨cs, hcs, hall⟩ := (ofCommands [greeting]).split_applyCompletion hline
  have hone : (ofCommands [greeting]).completions "/say 'go" =
      .ok [{ text := "'good day'", display := "good day", position := -3 }] := by rfl
  cases hone.symm.trans hcs
  obtain ⟨rest, cursor, rest', hrest, hcursor, -, hsplit, hscript⟩ := hall _ List.mem_cons_self
  have hquoted : ¬EndsAlone rest.toList := by
    cases hrest
    decide
  have hwords : cursor.preceding = ["say"] := by
    cases hrest
    cases hcursor
    rfl
  refine ⟨hline, rest', ?_, ?_⟩
  · rw [hsplit.2 fun h => absurd h hquoted, hwords]
    rfl
  · rw [hscript fun h => absurd h hquoted, hwords]
    rfl

/-- Behind a lone backslash the quote of a completion is escaped: the line that is made has no
words. -/
theorem lone_backslash_eats_quote :
    ∃ c, (ofCommands [greeting]).completions "/say \\" = .ok [c] ∧
      (∃ cursor, Cursor.ofLine "say \\" = .ok cursor ∧
        cursor.preceding ++ [c.display] = ["say", "good day"]) ∧
      applyCompletion "/say \\" c = "/say \\'good day'" ∧
      split "say \\'good day'" = .error ⟨"say \\'good day'"⟩ :=
  ⟨{ text := "'good day'", display := "good day", position := 0 }, rfl, ⟨_, rfl, rfl⟩, rfl, rfl⟩

end Parley.Registry
