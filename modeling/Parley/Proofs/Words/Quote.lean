import Parley.Proofs.Words.Reading

/-!
# Quoted words read back

A quoted word that stands where a word may start is read as that word (`read_quoteChars`), and
`escapeHashes` sets no marks in it (`escapeHashesFrom_quoteChars`). So a quoted word behind a gap adds
itself to the words of a line (`splitChars_quoteChars`). Behind a backslash it does so only if it
stands for itself, without quotes (`splitChars_backslash_quoteChars_iff`).
-/

set_option autoImplicit false

namespace Parley.Words

open Place

/-! ## Inside single quotes -/

/-- Inside single quotes an escaped text is read as itself. -/
theorem read_single_escapeQuote (comments : Bool) (w cs : List Char) :
    read comments single (w.flatMap escapeQuote ++ cs) =
      (read comments single cs).map fun ws => w.foldr push ws := by
  induction w with
  | nil => exact Option.map_id'.symm
  | cons c w ih =>
    rw [List.flatMap_cons, List.append_assoc]
    by_cases hc : c = '\''
    · subst hc
      have hread : ∀ ds, read comments single (escapeQuote '\'' ++ ds) =
          (read comments single ds).map (push '\'') := by
        intro ds
        simp [escapeQuote, read]
      rw [hread, ih, Option.map_map]
      rfl
    · have hread : ∀ ds, read comments single (escapeQuote c ++ ds) =
          (read comments single ds).map (push c) := by
        intro ds
        simp [escapeQuote, read, hc]
      rw [hread, ih, Option.map_map]
      rfl

/-- No word begins inside single quotes. -/
theorem escapeHashesFrom_escapeQuote (w cs : List Char) :
    escapeHashesFrom { region := .single } (w.flatMap escapeQuote ++ cs) =
      w.flatMap escapeQuote ++ escapeHashesFrom { region := .single } cs := by
  induction w with
  | nil => rfl
  | cons c w ih =>
    rw [List.flatMap_cons, List.append_assoc, List.append_assoc, ← ih]
    by_cases hc : c = '\''
    · subst hc
      rfl
    · have hbegins : Outline.begins { region := .single } c = false := rfl
      have hnext : Outline.next { region := .single } c = { region := .single } := by
        simp [Outline.next, hc]
      simp [escapeQuote, hc, escapeHashesFrom, hbegins, hnext]

theorem foldr_push (w : List Char) (v : List Char) (ws : List (List Char)) :
    w.foldr push (v :: ws) = (w ++ v) :: ws := by
  induction w with
  | nil => rfl
  | cons c w ih => rw [List.foldr_cons, ih]; rfl

/-! ## Words that stand for themselves -/

/-- The word needs no quotes. -/
def IsPlain (w : List Char) : Prop := w ≠ [] ∧ ∀ c ∈ w, needsQuotes c = false

theorem quoteChars_of_isPlain {w : List Char} (h : IsPlain w) : quoteChars w = w := by
  have hany : w.any needsQuotes = false := by simpa using h.2
  rw [quoteChars, hany, List.isEmpty_eq_false_iff.2 h.1]
  rfl

theorem quoteChars_of_not_isPlain {w : List Char} (h : ¬IsPlain w) :
    quoteChars w = '\'' :: w.flatMap escapeQuote ++ ['\''] := by
  refine if_pos ?_
  cases hquotes : w.isEmpty || w.any needsQuotes with
  | true => rfl
  | false =>
    rw [Bool.or_eq_false_iff] at hquotes
    exact absurd ⟨List.isEmpty_eq_false_iff.1 hquotes.1, by simpa using hquotes.2⟩ h

theorem length_le_flatMap_escapeQuote (w : List Char) :
    w.length ≤ (w.flatMap escapeQuote).length := by
  induction w with
  | nil => exact Nat.le_refl _
  | cons c w ih =>
    have hone : 1 ≤ (escapeQuote c).length := by
      unfold escapeQuote
      split <;> simp
    rw [List.flatMap_cons, List.length_append, List.length_cons]
    omega

/-- Quotes are set exactly around a word that does not stand for itself. -/
theorem quoteChars_eq_self_iff {w : List Char} : quoteChars w = w ↔ IsPlain w := by
  refine ⟨fun h => Classical.byContradiction fun hplain => ?_, quoteChars_of_isPlain⟩
  have hlength := congrArg List.length h
  rw [quoteChars_of_not_isPlain hplain] at hlength
  have hle := length_le_flatMap_escapeQuote w
  simp only [List.cons_append, List.length_cons, List.length_append, List.length_nil] at hlength
  omega

/-- A character that needs no quotes is no separator, quote, backslash or `#`. -/
theorem plain_of_needsQuotes {c : Char} (h : needsQuotes c = false) :
    c ≠ '\'' ∧ c ≠ '"' ∧ c ≠ '\\' ∧ c ≠ '#' ∧ c ≠ '\n' ∧ isSeparator c = false := by
  simp only [needsQuotes, decide_eq_false_iff_not, List.mem_cons, List.not_mem_nil, not_or] at h
  obtain ⟨hfeed, hquote, -, -, -, -, -, -, -, -, -, hslash, hdouble, hblank, htab, -, -, -, hhash, -⟩ :=
    h
  exact ⟨hquote, hdouble, hslash, hhash, hfeed, by simp [isSeparator, hfeed, hblank, htab]⟩

theorem read_bare_plain (comments : Bool) {w : List Char} (h : ∀ c ∈ w, needsQuotes c = false)
    (cs : List Char) :
    read comments bare (w ++ cs) = (read comments bare cs).map fun ws => w.foldr push ws := by
  induction w with
  | nil => exact Option.map_id'.symm
  | cons c w ih =>
    obtain ⟨hquote, hdouble, hslash, -, -, hseparator⟩ := plain_of_needsQuotes (h c (by simp))
    have hw : ∀ d ∈ w, needsQuotes d = false := fun d hd => h d (List.mem_cons_of_mem _ hd)
    rw [List.cons_append, read, if_neg hquote, if_neg hdouble, if_neg hslash, hseparator, ih hw]
    simp only [Bool.false_eq_true, if_false, Option.map_map]
    rfl

/-! ## Quoted words -/

/-- **A quoted word is read as that word.** -/
theorem read_quoteChars (comments : Bool) (w cs : List Char) :
    read comments between (quoteChars w ++ cs) =
      (read comments bare cs).map fun ws => w.foldr push ws := by
  by_cases hplain : IsPlain w
  · rw [quoteChars_of_isPlain hplain]
    obtain ⟨c, w, rfl⟩ := List.exists_cons_of_ne_nil hplain.1
    obtain ⟨hquote, hdouble, hslash, hhash, -, hseparator⟩ :=
      plain_of_needsQuotes (hplain.2 c (by simp))
    have hw : ∀ d ∈ w, needsQuotes d = false := fun d hd => hplain.2 d (List.mem_cons_of_mem _ hd)
    rw [List.cons_append, read, if_neg hquote, if_neg hdouble, if_neg hslash, hseparator,
      beq_false_of_ne hhash, Bool.and_false, read_bare_plain comments hw]
    simp only [Bool.false_eq_true, if_false, Option.map_map]
    rfl
  · rw [quoteChars_of_not_isPlain hplain, List.cons_append, List.cons_append, List.append_assoc,
      read, if_pos rfl, read_single_escapeQuote]
    simp [read]

theorem not_mem_of_isPlain {w : List Char} (h : IsPlain w) : '#' ∉ w := fun hmem => by
  have := h.2 _ hmem
  exact absurd this (by decide)

/-- The text lies outside quotes up to here, in a gap or in a word, and not behind a backslash. -/
def Outline.IsUnquoted (o : Outline) : Prop := o = {} ∨ o = { region := .bare }

/-- Outside quotes a character that needs none is the inside of a word. -/
theorem next_of_isUnquoted {o : Outline} (ho : o.IsUnquoted) {c : Char}
    (h : needsQuotes c = false) : o.next c = { region := .bare } := by
  obtain ⟨hquote, hdouble, hslash, -, -, hseparator⟩ := plain_of_needsQuotes h
  rcases ho with rfl | rfl <;>
    simp [Outline.next, Outline.inWord, hquote, hdouble, hslash, hseparator]

/-- **No mark is set in a quoted word**, and behind it the text lies in a word, outside quotes. -/
theorem escapeHashesFrom_quoteChars {o : Outline} (ho : o.IsUnquoted) (w ds : List Char) :
    escapeHashesFrom o (quoteChars w ++ ds) =
      quoteChars w ++ escapeHashesFrom { region := .bare } ds := by
  by_cases hplain : IsPlain w
  · rw [quoteChars_of_isPlain hplain, escapeHashesFrom_append,
      escapeHashesFrom_of_not_mem _ (not_mem_of_isPlain hplain)]
    have hbare : ∀ v : List Char, (∀ c ∈ v, needsQuotes c = false) →
        v.foldl Outline.next { region := .bare } = { region := .bare } := by
      intro v hv
      induction v with
      | nil => rfl
      | cons c v ih =>
        rw [List.foldl_cons, next_of_isUnquoted (.inr rfl) (hv c List.mem_cons_self)]
        exact ih fun d hd => hv d (List.mem_cons_of_mem _ hd)
    obtain ⟨c, v, rfl⟩ := List.exists_cons_of_ne_nil hplain.1
    rw [List.foldl_cons, next_of_isUnquoted ho (hplain.2 c List.mem_cons_self),
      hbare v fun d hd => hplain.2 d (List.mem_cons_of_mem _ hd)]
  · rw [quoteChars_of_not_isPlain hplain]
    have hopen : ∀ cs, escapeHashesFrom o ('\'' :: cs) =
        '\'' :: escapeHashesFrom { region := .single } cs := by
      rcases ho with rfl | rfl <;> exact fun _ => rfl
    have hclose : escapeHashesFrom { region := .single } ('\'' :: ds) =
        '\'' :: escapeHashesFrom { region := .bare } ds := rfl
    simp only [List.cons_append, List.append_assoc, List.nil_append]
    rw [hopen, escapeHashesFrom_escapeQuote, hclose]

/-! ## Behind a gap -/

/-- The words of a text that ends in a gap. -/
def wordsBefore (cs : List Char) : List (List Char) := between.emits cs []

theorem outline_of_gap {cs : List Char} (hcs : '\n' ∉ cs) (hgap : between.after cs = between) :
    outline cs = {} := by
  have h := toOutline_after (p := between) nofun hcs
  rw [hgap] at h
  exact h.symm

/-- What follows a gap is read on its own, and marked on its own. -/
theorem splitChars_append {cs : List Char} (hcs : '\n' ∉ cs) (hgap : between.after cs = between)
    (ds : List Char) :
    splitChars (cs ++ ds) = (splitChars ds).map fun ws => wordsBefore cs ++ ws := by
  have hmarked : escapeHashes (cs ++ ds) = escapeHashes cs ++ escapeHashes ds := by
    rw [escapeHashes, escapeHashesFrom_append]
    exact congrArg (fun o => escapeHashesFrom {} cs ++ escapeHashesFrom o ds)
      (outline_of_gap hcs hgap)
  have hread := read_escapeHashes (p := between) nofun hcs (escapeHashes ds)
  rw [hgap] at hread
  rw [splitChars, readAll, hmarked]
  refine hread.trans (congrArg (Option.map · _) ?_)
  funext ws
  exact (emits_of_gap hgap ws).1

/-- **A quoted word behind a gap** adds itself to the words. -/
theorem splitChars_quoteChars {cs : List Char} (hcs : '\n' ∉ cs)
    (hgap : between.after cs = between) (w : List Char) :
    splitChars (cs ++ quoteChars w) = some (wordsBefore cs ++ [w]) := by
  have hquoted : splitChars (quoteChars w) = some [w] := by
    have hmarked := escapeHashesFrom_quoteChars (.inl rfl) w []
    have hread := read_quoteChars true w []
    rw [List.append_nil] at hmarked hread
    rw [splitChars, escapeHashes, hmarked, escapeHashesFrom, List.append_nil, readAll, hread]
    simp [read, foldr_push]
  rw [splitChars_append hcs hgap, hquoted]
  rfl

/-! ## Behind a backslash -/

/-- A backslash takes the place of the quote that a word which needs them begins with. -/
theorem splitChars_backslash_quoteChars {w : List Char} :
    splitChars ('\\' :: quoteChars w) = some [w] ↔ IsPlain w := by
  have hmarked : ∀ cs, splitChars ('\\' :: cs) =
      read true escapeBetween (escapeHashesFrom { region := .bare, escaped := true } cs) :=
    fun _ => rfl
  constructor
  · refine fun h => Classical.byContradiction fun hplain => ?_
    rw [quoteChars_of_not_isPlain hplain, hmarked, List.cons_append] at h
    have hescaped : ∀ cs, read true escapeBetween
        (escapeHashesFrom { region := .bare, escaped := true } ('\'' :: cs)) =
        (read true bare (escapeHashesFrom { region := .bare } cs)).map (push '\'') := fun _ => rfl
    rw [hescaped, Option.map_eq_some_iff] at h
    obtain ⟨ws, hws, hw⟩ := h
    -- the word read begins with a quote, so it is `w` only if `w` does, and then it has one
    -- backslash too many
    obtain ⟨v, rfl⟩ : ∃ v, w = '\'' :: v := by
      rcases ws with _ | ⟨v, ws⟩ <;> cases hw <;> exact ⟨_, rfl⟩
    have hinner : ∀ cs, read true bare (escapeHashesFrom { region := .bare }
        ('\'' :: '\\' :: '\'' :: '\'' :: cs)) =
        (read true single (escapeHashesFrom { region := .single } cs)).map (push '\\') :=
      fun _ => rfl
    have hbody : ('\'' :: v).flatMap escapeQuote ++ ['\''] =
        '\'' :: '\\' :: '\'' :: '\'' :: (v.flatMap escapeQuote ++ ['\'']) := rfl
    rw [hbody, hinner, escapeHashesFrom_escapeQuote, read_single_escapeQuote] at hws
    have hlast : read true single (escapeHashesFrom { region := .single } ['\'']) = some [[]] := rfl
    rw [hlast, Option.map_some, foldr_push, List.append_nil] at hws
    cases hws
    have hlength := congrArg (fun ws : List (List Char) => ws.flatten.length) hw
    simp [push] at hlength
  · intro hplain
    have hhash := escapeHashesFrom_of_not_mem { region := .bare, escaped := true }
      (not_mem_of_isPlain hplain)
    rw [quoteChars_of_isPlain hplain, hmarked, hhash]
    obtain ⟨c, w, rfl⟩ := List.exists_cons_of_ne_nil hplain.1
    obtain ⟨-, -, -, -, hfeed, -⟩ := plain_of_needsQuotes (hplain.2 c (by simp))
    have hw : ∀ d ∈ w, needsQuotes d = false := fun d hd => hplain.2 d (List.mem_cons_of_mem _ hd)
    have hbare := read_bare_plain true hw []
    rw [List.append_nil] at hbare
    rw [read, if_neg hfeed, hbare]
    simp [read, foldr_push, push]

/-- Behind a gap and a backslash a quoted word is read as that word exactly if it needs no quotes. -/
theorem splitChars_backslash_quoteChars_iff {cs : List Char} (hcs : '\n' ∉ cs)
    (hgap : between.after cs = between) {w : List Char} :
    splitChars (cs ++ '\\' :: quoteChars w) = some (wordsBefore cs ++ [w]) ↔ IsPlain w := by
  rw [splitChars_append hcs hgap, ← splitChars_backslash_quoteChars, Option.map_eq_some_iff]
  constructor
  · rintro ⟨ws, hws, happ⟩
    rwa [List.append_cancel_left happ] at hws
  · intro h
    exact ⟨_, h, rfl⟩

end Parley.Words
