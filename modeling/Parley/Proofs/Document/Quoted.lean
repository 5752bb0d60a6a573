import Parley.Document.Quoted

/-!
# Quoted texts read back

Whatever form is chosen for a text, it is read back as that text, and nothing of what follows is
taken for a part of it (`readText?_quoteChars`).

`Written k run text written` says that a text is written in form `k` character by character: each is
spelled so that it is read as itself (`Quoting.Spells`), except that a block may hold up to two of
its quotes in a row as they are. `body?_written` reads such a text; its last quotes are told from the
closing ones by looking ahead (`Written.leading`).
-/

set_option autoImplicit false

namespace Parley.Document

/-- `spelled` is read as the character `c` in a text of form `k`, and is not taken for a quote. -/
structure Quoting.Spells (k : Quoting) (spelled : List Char) (c : Char) : Prop where
  head : ∃ d ds, spelled = d :: ds ∧ d ≠ k.mark ∧ d ≠ '\r' ∧ (d = '\n' → c = '\n')
  reads : ∀ rest, part? k (spelled ++ rest) = some ([c], rest)

/-- How a text is written between its quotes; `run` quotes stand before it as they are. -/
inductive Written (k : Quoting) : Nat → List Char → List Char → Prop
  | nil {run : Nat} : Written k run [] []
  | mark {run : Nat} {text written : List Char} (hk : k.isBlock = true) (hrun : run < 2)
    (h : Written k (run + 1) text written) : Written k run (k.mark :: text) (k.mark :: written)
  | other {run : Nat} {c : Char} {spelled text written : List Char} (hc : k.Spells spelled c)
    (h : Written k 0 text written) : Written k run (c :: text) (spelled ++ written)

/-! ## The closing quotes -/

theorem delimiter_eq (k : Quoting) :
    k.delimiter = List.replicate (if k.isBlock then 3 else 1) k.mark := by cases k <;> rfl

/-- A text is written as quotes alone, at most two with those before it, or it has something else
behind its first ones. -/
theorem Written.leading {k : Quoting} {run : Nat} {text written : List Char}
    (h : Written k run text written) (hrun : run ≤ 2) :
    ∃ n, n + run ≤ 2 ∧ (n = 0 ∨ k.isBlock = true) ∧
      (text = List.replicate n k.mark ∧ written = List.replicate n k.mark ∨
        ∃ d ds, written = List.replicate n k.mark ++ d :: ds ∧ d ≠ k.mark) := by
  induction h with
  | nil => exact ⟨0, by omega, .inl rfl, .inl ⟨rfl, rfl⟩⟩
  | @mark run text written hk hlt h ih =>
    obtain ⟨n, hn, -, hcases⟩ := ih (by omega)
    refine ⟨n + 1, by omega, .inr hk, ?_⟩
    rcases hcases with ⟨rfl, rfl⟩ | ⟨d, ds, rfl, hd⟩
    · exact .inl ⟨rfl, rfl⟩
    · exact .inr ⟨d, ds, rfl, hd⟩
  | other hc h ih =>
    obtain ⟨d, ds, rfl, hd, -⟩ := hc.head
    exact ⟨0, by omega, .inl rfl, .inr ⟨d, _, rfl, hd⟩⟩

/-- Quotes before the closing ones belong to the text. -/
theorem closing?_marks {k : Quoting} {n : Nat} (hn : n ≤ 2) (hk : n = 0 ∨ k.isBlock = true)
    {rest : List Char} (hrest : rest.head? ≠ some k.mark) :
    closing? k (List.replicate n k.mark ++ (k.delimiter ++ rest)) =
      some (List.replicate n k.mark, rest) := by
  have hnone : rest.takeWhile (· == k.mark) = [] := by
    cases rest with
    | nil => rfl
    | cons c rest =>
      have hc : (c == k.mark) = false := by simpa using hrest
      rw [List.takeWhile_cons, hc]
      rfl
  have hown : ∀ m, (List.replicate m k.mark ++ rest).takeWhile (· == k.mark) =
      List.replicate m k.mark := by
    intro m
    rw [List.takeWhile_append_of_pos (by simp), hnone, List.append_nil]
  have hcomm : List.replicate n k.mark ++ (k.delimiter ++ rest) =
      k.delimiter ++ (List.replicate n k.mark ++ rest) := by
    rw [delimiter_eq, ← List.append_assoc, ← List.append_assoc, List.replicate_append_replicate,
      List.replicate_append_replicate, Nat.add_comm]
  rw [hcomm, closing?, List.take_left, if_pos rfl, List.drop_left]
  rcases hk with rfl | hk
  · simp [hnone]
  · simp only [hk, if_true, hown, List.take_replicate, Nat.min_eq_right hn, List.length_replicate]
    rw [List.drop_left' (List.length_replicate ..)]

/-- No closing quotes are seen where something else stands behind at most two quotes. -/
theorem closing?_none {k : Quoting} {n : Nat} (hn : n ≤ 2) (hk : n = 0 ∨ k.isBlock = true)
    {d : Char} (hd : d ≠ k.mark) (rest : List Char) :
    closing? k (List.replicate n k.mark ++ d :: rest) = none := by
  refine if_neg fun h => hd ?_
  have hlt : n < if k.isBlock = true then 3 else 1 := by
    rcases hk with rfl | hk
    · split <;> decide
    · rw [if_pos hk]
      omega
  -- the character behind the quotes is among those that are compared
  have hget := congrArg (fun cs => cs[n]?) h
  rw [delimiter_eq, List.length_replicate] at hget
  simpa [hlt] using hget

/-! ## Reading a text -/

section
variable {k : Quoting} {fuel : Nat} {cs : List Char}

theorem body?_end {found : List Char × List Char} (h : closing? k cs = some found) :
    body? k (fuel + 1) cs = some found := by
  rw [body?, h]

theorem body?_part {part text rest rest' : List Char} (hclosing : closing? k cs = none)
    (hpart : part? k cs = some (part, rest)) (h : body? k fuel rest = some (text, rest')) :
    body? k (fuel + 1) cs = some (part ++ text, rest') := by
  rw [body?, hclosing, hpart]
  simp only [h, Option.map_some]

end

/-- A quote that is no closing one stands for itself. -/
theorem part?_mark (k : Quoting) (rest : List Char) :
    part? k (k.mark :: rest) = some ([k.mark], rest) := by
  cases k <;> rfl

/-- **A written text is read back**, up to the quotes that close it. -/
theorem body?_written {k : Quoting} {run : Nat} {text written : List Char}
    (h : Written k run text written) (hrun : run ≤ 2) {rest : List Char}
    (hrest : rest.head? ≠ some k.mark) {fuel : Nat} (hfuel : written.length < fuel) :
    body? k fuel (written ++ (k.delimiter ++ rest)) = some (text, rest) := by
  induction h generalizing fuel with
  | nil =>
    obtain ⟨fuel, rfl⟩ := Nat.exists_eq_succ_of_ne_zero (Nat.ne_zero_of_lt hfuel)
    exact body?_end (closing?_marks (Nat.zero_le 2) (.inl rfl) hrest)
  | @mark run text written hk hlt h ih =>
    obtain ⟨fuel, rfl⟩ := Nat.exists_eq_succ_of_ne_zero (Nat.ne_zero_of_lt hfuel)
    have hread := ih (by omega) (Nat.lt_of_succ_lt_succ hfuel)
    obtain ⟨n, hn, hblock, ⟨htext, hwritten⟩ | ⟨d, ds, hwritten, hd⟩⟩ :=
      (Written.mark hk hlt h).leading hrun
    · rw [htext, hwritten]
      exact body?_end (closing?_marks (by omega) hblock hrest)
    · refine body?_part ?_ (part?_mark k _) hread
      show closing? k ((k.mark :: written) ++ (k.delimiter ++ rest)) = none
      rw [hwritten, List.append_assoc]
      exact closing?_none (by omega) hblock hd _
  | @other run c spelled text written hc h ih =>
    obtain ⟨d, ds, rfl, hd, -⟩ := hc.head
    obtain ⟨fuel, rfl⟩ := Nat.exists_eq_succ_of_ne_zero (Nat.ne_zero_of_lt hfuel)
    have hlength : written.length < fuel := by
      rw [List.length_append, List.length_cons] at hfuel
      omega
    rw [List.append_assoc]
    exact body?_part (closing?_none (Nat.zero_le 2) (.inl rfl) hd _) (hc.reads _)
      (ih (Nat.zero_le 2) hlength)

/-! ## Spelling characters -/

/-- Characters that only an escape with a number can stand for. -/
def isControl (c : Char) : Bool := c.toNat < 0x20 || c.toNat == 0x7f

theorem isPlain_of_not_isControl {c : Char} (h : isControl c = false) : isPlain c = true := by
  simp only [isControl, Bool.or_eq_false_iff, decide_eq_false_iff_not, beq_eq_false_iff_ne] at h
  simp only [isPlain, Bool.or_eq_true, Bool.and_eq_true, decide_eq_true_eq, bne_iff_ne]
  exact .inr ⟨Nat.le_of_not_lt h.1, h.2⟩

theorem spells_plain {k : Quoting} {c : Char} (hplain : isPlain c = true) (hmark : c ≠ k.mark)
    (hescape : c ≠ '\\' ∨ k.hasEscapes = false) : k.Spells [c] c := by
  have hreturn : c ≠ '\r' := by
    rintro rfl
    cases hplain
  refine ⟨⟨c, [], rfl, hmark, hreturn, id⟩, fun rest => ?_⟩
  have hnone : (decide (c = '\\') && k.hasEscapes) = false := by
    rcases hescape with h | h <;> simp [h]
  unfold part?
  simp only [List.singleton_append, hnone, hplain, Bool.false_eq_true, if_false, if_true]

theorem spells_lineEnd {k : Quoting} (h : k.isBlock = true) : k.Spells ['\n'] '\n' := by
  refine ⟨⟨'\n', [], rfl, by cases k <;> decide, by decide, id⟩, fun rest => ?_⟩
  cases k with
  | basic | literal => cases h
  | basicBlock | literalBlock => rfl

/-- A backslash and an escape that is no blank. -/
theorem spells_escape {k : Quoting} (hk : k.hasEscapes = true) {c d : Char} {ds : List Char}
    (hd : isSpace d = false ∧ d ≠ '\n' ∧ d ≠ '\r')
    (h : ∀ rest, escaped? (d :: ds ++ rest) = some (c, rest)) : k.Spells ('\\' :: d :: ds) c := by
  refine ⟨⟨'\\', _, rfl, by cases k <;> decide, by decide, nofun⟩, fun rest => ?_⟩
  have hjoined : joinedLine? (d :: ds ++ rest) = none := by
    rw [joinedLine?, List.cons_append, List.dropWhile_cons_of_neg (by simp [hd.1]), lineBreak?]
    · rfl
    · intro _ heq
      exact hd.2.1 (List.cons.inj heq).1
    · intro _ heq
      exact hd.2.2 (List.cons.inj heq).1
  have hnone : (if k.isBlock then joinedLine? (d :: ds ++ rest) else none) = none := by
    rw [hjoined, ite_self]
  unfold part?
  simp only [List.cons_append, hk, decide_true, Bool.and_self, if_true] at h hnone ⊢
  rw [hnone, h]
  rfl

/-- The digits of a control character are read as its number. -/
theorem escaped?_control {c : Char} (h : isControl c = true) (rest : List Char) :
    escaped? ('u' :: (Text.hexDigits 4 c.toNat).map Char.toUpper ++ rest) = some (c, rest) := by
  have hall : ∀ n : Fin 128, (n.val < 0x20 || n.val == 0x7f) = true →
      Text.hexNumber? 0 ((Text.hexDigits 4 n.val).map Char.toUpper) = some n.val ∧
        n.val.isValidChar := by decide
  have hlength : ((Text.hexDigits 4 c.toNat).map Char.toUpper).length = 4 := by
    rw [List.length_map, Text.length_hexDigits]
  have hlt : c.toNat < 128 := by
    simp only [isControl, Bool.or_eq_true, decide_eq_true_eq, beq_iff_eq] at h
    omega
  have hnumber : Text.hexNumber? 0 ((Text.hexDigits 4 c.toNat).map Char.toUpper) = some c.toNat :=
    (hall ⟨c.toNat, hlt⟩ h).1
  have hvalid : c.toNat.isValidChar := (hall ⟨c.toNat, hlt⟩ h).2
  rw [List.cons_append, escaped?, codePoint?, List.take_left' hlength, if_pos hlength, hnumber]
  simp only [hvalid, if_true, List.drop_left' hlength, Char.ofNat_toNat]

theorem spells_escapeChar {k : Quoting} (hk : k.hasEscapes = true) {c : Char} (hc : c ≠ '"') :
    k.Spells (escapeChar k.isBlock c) c := by
  have hmark : c ≠ k.mark := by
    cases k with
    | basic | basicBlock => exact hc
    | literal | literalBlock => cases hk
  unfold escapeChar
  split
  · next h =>
    subst h
    exact spells_escape hk (by decide) fun _ => rfl
  split
  · next h =>
    subst h
    exact spells_escape hk (by decide) fun _ => rfl
  split
  · next h =>
    subst h
    split
    · next hblock => exact spells_lineEnd hblock
    · exact spells_escape hk (by decide) fun _ => rfl
  split
  · next h =>
    subst h
    exact spells_escape hk (by decide) fun _ => rfl
  split
  · next h =>
    subst h
    exact spells_escape hk (by decide) fun _ => rfl
  split
  · next h =>
    subst h
    exact spells_escape hk (by decide) fun _ => rfl
  next hbackslash =>
  split
  · next h => exact spells_escape hk (by decide) (escaped?_control h)
  · next h =>
    rw [Bool.not_eq_true] at h
    exact spells_plain (isPlain_of_not_isControl h) hmark (.inl hbackslash)

/-! ## Writing a text -/

/-- A text with escapes, in either form. -/
theorem written_escapeText {k : Quoting} (hk : k.hasEscapes = true) (text : List Char) (run : Nat) :
    Written k run text (escapeText k.isBlock run text) := by
  have hmark : k.mark = '"' := by
    cases k with
    | basic | basicBlock => rfl
    | literal | literalBlock => cases hk
  induction text generalizing run with
  | nil => exact .nil
  | cons c text ih =>
    rw [escapeText]
    split
    · next hc =>
      subst hc
      split
      · next hrun =>
        rw [Bool.and_eq_true, decide_eq_true_eq] at hrun
        have hquote := Written.mark hrun.1 hrun.2 (ih (run + 1))
        rwa [hmark] at hquote
      · show Written k run ('"' :: text) (['\\', '"'] ++ escapeText k.isBlock 0 text)
        exact .other (spells_escape hk (by decide) fun _ => rfl) (ih 0)
    · next hc => exact .other (spells_escapeChar hk hc) (ih 0)

/-- A character of a text without escapes stands for itself. -/
theorem spells_self {k : Quoting} (hk : k.hasEscapes = false) {c : Char}
    (hc : needsEscape c = false) (hmark : c ≠ k.mark) (hend : c = '\n' → k.isBlock = true) :
    k.Spells [c] c := by
  by_cases h : c = '\n'
  · subst h
    exact spells_lineEnd (hend rfl)
  · refine spells_plain ?_ hmark (.inr hk)
    by_cases htab : c = '\t'
    · subst htab
      rfl
    · have hcontrol : isControl c = false := by
        simpa only [needsEscape, isControl, bne_iff_ne.mpr htab, bne_iff_ne.mpr h, Bool.and_true]
          using hc
      exact isPlain_of_not_isControl hcontrol

theorem written_literal {text : List Char}
    (h : ∀ c ∈ text, needsEscape c = false ∧ c ≠ '\'' ∧ c ≠ '\n') :
    Written .literal 0 text text := by
  induction text with
  | nil => exact .nil
  | cons c text ih =>
    obtain ⟨hescape, hmark, hend⟩ := h c (List.mem_cons_self ..)
    exact .other (spells_self (k := .literal) rfl hescape hmark (absurd · hend))
      (ih fun d hd => h d (List.mem_cons_of_mem _ hd))

theorem hasTriple_of_append {q : Char} {cs ds : List Char} (h : hasTriple q (cs ++ ds) = false) :
    hasTriple q ds = false := by
  induction cs with
  | nil => exact h
  | cons c cs ih =>
    refine ih ?_
    match hcs : cs ++ ds with
    | a :: b :: rest =>
      rw [List.cons_append, hcs, hasTriple, Bool.or_eq_false_iff] at h
      exact h.2
    | [] | [_] => rfl

theorem written_literalBlock {text : List Char} {run : Nat} (hrun : run ≤ 2)
    (hescape : ∀ c ∈ text, needsEscape c = false)
    (htriple : hasTriple '\'' (List.replicate run '\'' ++ text) = false) :
    Written .literalBlock run text text := by
  induction text generalizing run with
  | nil => exact .nil
  | cons c text ih =>
    have hrest : ∀ d ∈ text, needsEscape d = false := fun d hd =>
      hescape d (List.mem_cons_of_mem _ hd)
    by_cases hc : c = '\''
    · subst hc
      have hlt : run < 2 := by
        refine Nat.lt_of_le_of_ne hrun ?_
        rintro rfl
        cases htriple
      rw [List.append_cons, ← List.replicate_succ'] at htriple
      exact .mark rfl hlt (ih hlt hrest htriple)
    · rw [List.append_cons] at htriple
      exact .other (spells_self (k := .literalBlock) rfl (hescape c (List.mem_cons_self ..)) hc fun _ => rfl)
        (ih (Nat.zero_le 2) hrest (hasTriple_of_append htriple))

/-! ## Choosing a form -/

/-- In the form that is chosen for a text, the text can be written. -/
theorem written_quoting (cs : List Char) :
    Written (quoting cs) 0 cs
      (if (quoting cs).hasEscapes then escapeText (quoting cs).isBlock 0 cs else cs) := by
  have hescapes : ∀ {k : Quoting}, k.hasEscapes = true →
      Written k 0 cs (if k.hasEscapes then escapeText k.isBlock 0 cs else cs) := fun hk => by
    rw [if_pos hk]
    exact written_escapeText hk cs 0
  unfold quoting
  split
  · split <;> exact hescapes rfl
  next hany =>
  have hneeds : ∀ c ∈ cs, needsEscape c = false := by simpa using hany
  split
  · exact hescapes rfl
  split
  · next h =>
    simp only [Bool.and_eq_true, Bool.not_eq_true', List.contains_eq_mem, decide_eq_false_iff_not]
      at h
    exact written_literal fun c hc =>
      ⟨hneeds c hc, fun heq => h.1 (heq ▸ hc), fun heq => h.2 (heq ▸ hc)⟩
  split
  · exact hescapes rfl
  split
  · next h =>
    rw [Bool.not_eq_true'] at h
    exact written_literalBlock (Nat.zero_le 2) hneeds h
  · split <;> exact hescapes rfl

/-! ## Reading a quoted text -/

section
variable {k : Quoting} {text written rest : List Char} (h : Written k 0 text written)
include h

/-- A text without line ends does not begin with one when it is written. -/
theorem Written.lineBreak?_eq_none (htext : '\n' ∉ text) :
    lineBreak? (written ++ (k.delimiter ++ rest)) = none := by
  have hnone : ∀ (d : Char) (ds : List Char), d ≠ '\n' → d ≠ '\r' →
      lineBreak? (d :: ds) = none := by
    intro d ds hline hreturn
    unfold lineBreak?
    split <;> simp_all
  cases h with
  | nil => cases k <;> rfl
  | mark => exact hnone _ _ (by cases k <;> decide) (by cases k <;> decide)
  | other hc =>
    obtain ⟨d, ds, rfl, -, hreturn, hline⟩ := hc.head
    exact hnone _ _ (fun hd => htext (hline hd ▸ List.mem_cons_self ..)) hreturn

/-- The opening quote of a text that is no block is not taken for three. -/
theorem Written.take_two_ne (hk : k.isBlock = false) (hrest : rest.head? ≠ some k.mark) :
    (written ++ (k.delimiter ++ rest)).take 2 ≠ [k.mark, k.mark] := by
  cases h with
  | nil =>
    rw [delimiter_eq, hk]
    cases rest with
    | nil => simp
    | cons c rest => simpa using hrest
  | mark hblock => rw [hk] at hblock; cases hblock
  | other hc =>
    obtain ⟨d, ds, rfl, hd, -⟩ := hc.head
    exact fun heq => hd (List.cons.inj heq).1

end

section
variable (cs : List Char) {rest : List Char}

/-- The text between the quotes is read back, up to the closing ones. -/
theorem textIn?_quotedBody (hrest : rest.head? ≠ some (quoting cs).mark) :
    textIn? (quoting cs) (quotedBody (quoting cs) cs ++ ((quoting cs).delimiter ++ rest)) =
      some (String.ofList cs, rest) := by
  have hwritten := written_quoting cs
  unfold quotedBody textIn?
  generalize quoting cs = k at *
  generalize (if k.hasEscapes then escapeText k.isBlock 0 cs else cs) = written at *
  have hread : ∀ start, start = written ++ (k.delimiter ++ rest) →
      body? k (start.length + 1) start = some (cs, rest) := by
    rintro _ rfl
    have hfuel : written.length < (written ++ (k.delimiter ++ rest)).length + 1 := by
      rw [List.length_append]
      omega
    exact body?_written hwritten (Nat.zero_le 2) hrest hfuel
  dsimp only
  rw [hread]
  · rfl
  · by_cases hblock : k.isBlock = true
    · by_cases hline : '\n' ∈ cs
      · simp [hblock, hline, lineBreak?]
      · simp [hblock, hline, hwritten.lineBreak?_eq_none hline]
    · simp [hblock]

theorem readText?_delimiter {k : Quoting}
    (h : k.isBlock = false → cs.take 2 ≠ [k.mark, k.mark]) :
    readText? (k.delimiter ++ cs) = textIn? k cs := by
  cases k with
  | basicBlock | literalBlock => rfl
  | basic | literal =>
    unfold readText?
    split <;> simp_all [Quoting.delimiter, Quoting.mark, Quoting.isBlock]

/-- **A written text is read back**, whatever characters it has, and the rest is left. -/
theorem readText?_quoteChars (hrest : rest.head? ≠ some '"' ∧ rest.head? ≠ some '\'') :
    readText? (quoteChars cs ++ rest) = some (String.ofList cs, rest) := by
  have hmark : rest.head? ≠ some (quoting cs).mark := by
    cases quoting cs with
    | basic | basicBlock => exact hrest.1
    | literal | literalBlock => exact hrest.2
  have hopens : (quoting cs).isBlock = false →
      (quotedBody (quoting cs) cs ++ ((quoting cs).delimiter ++ rest)).take 2 ≠
        [(quoting cs).mark, (quoting cs).mark] := by
    intro hk
    have hne := (written_quoting cs).take_two_ne hk hmark
    rwa [quotedBody, hk, Bool.false_and, if_neg Bool.false_ne_true, List.nil_append, ← hk]
  rw [← textIn?_quotedBody cs hmark, ← readText?_delimiter _ hopens]
  simp only [quoteChars, List.append_assoc]

end

end Parley.Document
