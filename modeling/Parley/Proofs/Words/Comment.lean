import Parley.Proofs.Words.Reading

/-!
# Hashes and comments

A `#` is meant to be literal, and it is, but where it follows a line feed that is escaped between two
words (`HidesHash`): there the reader may begin a word, the outline thinks that one has begun, and so
the `#` opens a comment. `split_literal` says that these are the only texts that are not read as if
there were no comments. What is lost in them is seen by counting: without comments every `#` of a
text turns up in its words (`count_of_read`), and a comment loses one (`count_lt_of_misses`).
-/

set_option autoImplicit false

namespace Parley.Words

open Place

/-- The words of a line in which a `#` is a character like any other. -/
def splitLiterally (line : String) : Except SyntaxFault (List String) :=
  match read false between line.toList with
  | some ws => .ok (ws.map String.ofList)
  | none => .error ⟨line⟩

/-- A `#` follows a line feed that is escaped where no word is open. -/
def HidesHash (cs : List Char) : Prop :=
  ∃ before after, cs = before ++ '\n' :: '#' :: after ∧ between.after before = escapeBetween

/-! ## The marks that are missed -/

theorem misses_append {o : Outline} {p : Place} {cs ds : List Char}
    (h : Misses (cs.foldl Outline.next o) (p.after cs) ds) : Misses o p (cs ++ ds) := by
  induction cs generalizing o p with
  | nil => exact h
  | cons c cs ih => exact .inr (ih h)

theorem trails_after {o : Outline} {p : Place} (h : Trails o p) (hp : p ≠ comment)
    (cs : List Char) : Trails (cs.foldl Outline.next o) (p.after cs) := by
  induction cs generalizing o p with
  | nil => exact h
  | cons c cs ih => exact ih (h.next hp c) (next_ne_comment hp c)

/-- The `#` that is missed stands behind an escaped line feed, or the outline has gone astray before
the text. -/
theorem exists_of_misses {o : Outline} {p : Place} (hp : p ≠ comment) (ho : Trails o p)
    {cs : List Char} (h : Misses o p cs) :
    (∃ before after, cs = before ++ '\n' :: '#' :: after ∧ p.after before = escapeBetween) ∨
      o ≠ p.toOutline ∧ cs.head? = some '#' := by
  induction cs generalizing o p with
  | nil => exact h.elim
  | cons c cs ih =>
    rcases h with ⟨rfl, rfl, hne⟩ | hrest
    · exact .inr ⟨hne, rfl⟩
    · rcases ih (next_ne_comment hp c) (ho.next hp c) hrest with
        ⟨before, after, rfl, hplace⟩ | ⟨hastray, hhead⟩
      · exact .inl ⟨c :: before, after, rfl, hplace⟩
      · obtain ⟨after, rfl⟩ := List.head?_eq_some_iff.1 hhead
        by_cases hfeed : p = escapeBetween ∧ c = '\n'
        · obtain ⟨rfl, rfl⟩ := hfeed
          exact .inl ⟨[], after, rfl, rfl⟩
        · exact absurd (ho.next_eq hp fun hplace hc => hfeed ⟨hplace, hc⟩) hastray

/-- The marks miss a `#` exactly if a line feed hides it. -/
theorem misses_iff {cs : List Char} : Misses {} between cs ↔ HidesHash cs := by
  have hstart : Trails {} between := .inl rfl
  constructor
  · intro h
    rcases exists_of_misses (p := between) nofun hstart h with hhidden | ⟨hastray, -⟩
    · exact hhidden
    · exact absurd rfl hastray
  · rintro ⟨before, after, rfl, hplace⟩
    refine misses_append ?_
    have htrails := trails_after hstart nofun before
    rw [hplace] at htrails ⊢
    obtain ho := htrails.resolve_right nofun
    rw [ho]
    exact .inr (.inl ⟨rfl, rfl, nofun⟩)

instance (cs : List Char) : Decidable (HidesHash cs) := decidable_of_iff _ misses_iff

theorem not_hidesHash {cs : List Char} (h : '\n' ∉ cs) : ¬HidesHash cs := by
  rw [← misses_iff]
  exact not_misses (p := between) nofun h

/-! ## Without comments -/

/-- At the end of a text there is no comment to open. -/
theorem read_nil (comments : Bool) (p : Place) : read comments p [] = read false p [] := by
  cases p <;> rfl

/-- Where no `#` is hidden, a line is split as if there were no comments. -/
theorem splitChars_eq_read {cs : List Char} (h : ¬HidesHash cs) :
    splitChars cs = read false between cs := by
  rw [← misses_iff] at h
  have hmarked := read_marked (o := {}) (p := between) nofun (.inl rfl) h []
  have hplain := read_append (p := between) nofun cs []
  rw [List.append_nil] at hmarked hplain
  rw [splitChars, escapeHashes, readAll, hmarked, hplain, read_nil true]

/-! ## Counting hashes -/

/-- How many `#` there are in words. -/
def hashes (ws : List (List Char)) : Nat := ws.flatten.count '#'

theorem hashes_push (c : Char) (ws : List (List Char)) :
    hashes (push c ws) = hashes ws + if c = '#' then 1 else 0 := by
  cases ws <;> simp [hashes, push, List.count_cons]

/-- A character that is no separator, quote or backslash turns up in the words. -/
theorem hashes_emit {p : Place} (hp : p ≠ comment) (c : Char) (ws : List (List Char)) :
    hashes (p.emit c ws) = hashes ws + if c = '#' then 1 else 0 := by
  have hskip : ∀ d ∈ ['\'', '"', '\\', '\n'], d ≠ '#' := by simp
  have hseparator : isSeparator '#' = false := rfl
  have hopen : hashes ([] :: ws) = hashes ws := rfl
  cases p with
  | comment => exact absurd rfl hp
  | _ =>
    simp only [emit]
    grind [hashes_push]

theorem hashes_emits {p : Place} (hp : p ≠ comment) (cs : List Char) (ws : List (List Char)) :
    hashes (p.emits cs ws) = hashes ws + cs.count '#' := by
  induction cs generalizing p with
  | nil => rfl
  | cons c cs ih =>
    rw [emits, hashes_emit hp, ih (next_ne_comment hp c), List.count_cons, Nat.add_assoc]
    simp

/-- At its end a text leaves words without `#`. -/
theorem hashes_of_read_nil {comments : Bool} {p : Place} {ws : List (List Char)}
    (h : read comments p [] = some ws) : hashes ws = 0 := by
  cases p <;> cases h <;> rfl

/-- **Without comments** every `#` of a text turns up in its words. -/
theorem count_of_read {p : Place} (hp : p ≠ comment) {cs : List Char} {ws : List (List Char)}
    (h : read false p cs = some ws) : hashes ws = cs.count '#' := by
  have happend := read_append hp cs []
  rw [List.append_nil, h] at happend
  obtain ⟨rest, hrest, rfl⟩ := Option.map_eq_some_iff.1 happend.symm
  rw [hashes_emits hp, hashes_of_read_nil hrest, Nat.zero_add]

/-- With comments no `#` turns up that is not in the text. -/
theorem count_le_of_read {p : Place} {cs : List Char} {ws : List (List Char)}
    (h : read true p cs = some ws) : hashes ws ≤ cs.count '#' := by
  induction cs generalizing p ws with
  | nil => exact Nat.le_of_eq (hashes_of_read_nil h)
  | cons c cs ih =>
    have hle : cs.count '#' ≤ (c :: cs).count '#' := List.count_le_count_cons
    by_cases hcomment : p = comment ∨ (p = between ∧ c = '#')
    · -- in a comment, and where one opens, the character is left out
      have hrest : ∃ q, read true q cs = some ws := by
        rcases hcomment with rfl | ⟨rfl, rfl⟩
        · rw [read] at h
          split at h <;> exact ⟨_, h⟩
        · exact ⟨_, h⟩
      obtain ⟨q, hq⟩ := hrest
      exact Nat.le_trans (ih hq) hle
    · obtain ⟨hp, hopens⟩ := not_or.1 hcomment
      rw [read_cons hp fun _ hplace hc => hopens ⟨hplace, hc⟩] at h
      obtain ⟨rest, hrest, rfl⟩ := Option.map_eq_some_iff.1 h
      rw [hashes_emit hp, List.count_cons]
      simpa using ih hrest

theorem count_escapeHashesFrom (o : Outline) (cs : List Char) :
    (escapeHashesFrom o cs).count '#' = cs.count '#' := by
  induction cs generalizing o with
  | nil => rfl
  | cons c cs ih =>
    rw [escapeHashesFrom]
    split <;> simp [List.count_cons, ih]

/-- **Where a mark is missed**, a `#` of the text is in none of the words. -/
theorem count_lt_of_misses {o : Outline} {p : Place} (hp : p ≠ comment) (ho : Trails o p)
    {cs : List Char} (h : Misses o p cs) {ws : List (List Char)}
    (hws : read true p (escapeHashesFrom o cs) = some ws) : hashes ws < cs.count '#' := by
  induction cs generalizing o p ws with
  | nil => exact h.elim
  | cons c cs ih =>
    by_cases hfirst : c = '#' ∧ p = between ∧ o ≠ {}
    · obtain ⟨rfl, rfl, hne⟩ := hfirst
      have hunmarked : o.begins '#' = false := by
        rw [← Bool.not_eq_true, begins_hash_iff]
        exact hne
      rw [escapeHashesFrom, hunmarked] at hws
      have hcomment : read true comment (escapeHashesFrom (o.next '#') cs) = some ws := hws
      have hle := count_le_of_read hcomment
      rw [count_escapeHashesFrom] at hle
      rw [List.count_cons_self]
      exact Nat.lt_succ_of_le hle
    · have hmark := read_mark hp ho hfirst cs []
      rw [List.append_nil, List.append_nil, hws] at hmark
      obtain ⟨rest, hrest, rfl⟩ := Option.map_eq_some_iff.1 hmark.symm
      have hlt := ih (next_ne_comment hp c) (ho.next hp c) (h.resolve_left hfirst) hrest
      rw [hashes_emit hp, List.count_cons]
      simpa using hlt

/-! ## Splitting -/

/-- **A `#` is literal** where no line feed hides it: there a line is split as if there were no
comments, into the same words or with the same fault. Where one is hidden and the line without
comments has words, these are not what it is split into. -/
theorem split_literal (line : String) :
    (¬HidesHash line.toList → split line = splitLiterally line) ∧
      (HidesHash line.toList → ∀ ws, splitLiterally line = .ok ws → split line ≠ .ok ws) := by
  constructor
  · intro h
    rw [split, splitChars_eq_read h]
    rfl
  · intro h ws hliteral hsplit
    rw [splitLiterally] at hliteral
    rw [split] at hsplit
    split at hliteral
    · next words hwords =>
      split at hsplit
      · next words' hwords' =>
        have hsame : words'.map String.ofList = words.map String.ofList :=
          Except.ok.inj (hsplit.trans hliteral.symm)
        obtain rfl : words' = words :=
          (List.map_inj_right fun _ _ => String.ofList_injective).1 hsame
        have hp : between ≠ comment := by simp
        have hall := count_of_read hp hwords
        have hlost := count_lt_of_misses hp (.inl rfl) (misses_iff.2 h) hwords'
        omega
      · cases hsplit
    · cases hliteral

/-- Inside a word an escaped line feed hides nothing, and neither does one with a blank behind it. -/
theorem split_literal_in_word : ¬HidesHash "say\\\n#a \\\n #b '#c'".toList ∧
    split "say\\\n#a \\\n #b '#c'" = splitLiterally "say\\\n#a \\\n #b '#c'" ∧
    splitLiterally "say\\\n#a \\\n #b '#c'" = .ok ["say#a", "#b", "#c"] := by
  have h : ¬HidesHash "say\\\n#a \\\n #b '#c'".toList := by decide
  exact ⟨h, (split_literal _).1 h, rfl⟩

/-- A word that begins with `#` is dropped as a comment. -/
theorem hidden_hash_dropped : HidesHash "\\\n#x".toList ∧ split "\\\n#x" = .ok [] ∧
    splitLiterally "\\\n#x" = .ok ["#x"] := by
  refine ⟨by decide, rfl, rfl⟩

end Parley.Words
