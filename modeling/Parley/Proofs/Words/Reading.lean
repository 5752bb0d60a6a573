import Parley.Words.Split

/-!
# Texts read in parts

The reader of words as a machine without comments: `Place.next` is the place after one more
character, and `Place.emit` is what the character does to the words of the rest (`read_cons`). So
the words of a text in two parts are those of the second part, read from where the first one ends,
with the first part put in front of them (`Place.read_append`). Behind a gap that is just the words
of the first part (`Place.emits_of_gap`).

The outline of a text follows the machine, but for escaped line feeds between words
(`Place.Trails.next_eq`). Hence the marks that `escapeHashes` sets keep the reader out of comments
unless they miss a `#` there (`Place.read_marked`), and in a text without line feeds they miss none
(`Place.read_escapeHashes`); and as many words are read as begin (`Place.length_emits`).
-/

set_option autoImplicit false

namespace Parley.Words

namespace Place

/-- The place after one more character, where `#` opens no comment. -/
def next : Place → Char → Place
  | between, c =>
    if c = '\'' then single else if c = '"' then double else if c = '\\' then escapeBetween
    else if isSeparator c then between else bare
  | escapeBetween, c => if c = '\n' then between else bare
  | bare, c =>
    if c = '\'' then single else if c = '"' then double else if c = '\\' then escapeBare
    else if isSeparator c then between else bare
  | escapeBare, _ => bare
  | single, c => if c = '\'' then bare else single
  | double, c => if c = '"' then bare else if c = '\\' then escapeDouble else double
  | escapeDouble, _ => double
  | comment, c => if c = '\n' then between else comment

/-- What a character does to the words of the rest, of which the first one may be open. -/
def emit : Place → Char → List (List Char) → List (List Char)
  | between, c => if c = '\'' ∨ c = '"' ∨ c = '\\' ∨ isSeparator c then id else push c
  | escapeBetween, c | escapeBare, c => if c = '\n' then id else push c
  | bare, c =>
    if c = '\'' ∨ c = '"' ∨ c = '\\' then id
    else if isSeparator c then ([] :: ·) else push c
  | single, c => if c = '\'' then id else push c
  | double, c => if c = '"' ∨ c = '\\' then id else push c
  | escapeDouble, c =>
    if c = '\n' then id else if isEscapable c then push c else fun ws => push '\\' (push c ws)
  | comment, _ => id

/-- The place at the end of a text that begins at a place. -/
def after (p : Place) (cs : List Char) : Place := cs.foldl next p

/-- What a text does to the words of the rest. -/
def emits : Place → List Char → List (List Char) → List (List Char)
  | _, [], ws => ws
  | p, c :: cs, ws => p.emit c (emits (p.next c) cs ws)

theorem emits_append (p : Place) (cs ds : List Char) (ws : List (List Char)) :
    p.emits (cs ++ ds) ws = p.emits cs ((p.after cs).emits ds ws) := by
  induction cs generalizing p with
  | nil => rfl
  | cons c cs ih => exact congrArg (p.emit c) (ih _)

/-- A character leads from a place to the next one, unless it opens a comment. -/
theorem read_cons {comments : Bool} {p : Place} (hp : p ≠ comment) {c : Char}
    (hc : comments = true → p = between → c ≠ '#') (cs : List Char) :
    read comments p (c :: cs) = (read comments (p.next c) cs).map (p.emit c) := by
  cases p with
  | between =>
    have hhash : (comments && c == '#') = false := by
      cases comments with
      | false => rfl
      | true => simpa using hc rfl rfl
    simp only [read, next, emit, hhash, Bool.false_eq_true, if_false]
    by_cases h₁ : c = '\''
    · simp [h₁]
    by_cases h₂ : c = '"'
    · simp [h₂]
    by_cases h₃ : c = '\\'
    · simp [h₃]
    by_cases h₄ : isSeparator c <;> simp [h₁, h₂, h₃, h₄]
  | bare =>
    simp only [read, next, emit]
    by_cases h₁ : c = '\''
    · simp [h₁]
    by_cases h₂ : c = '"'
    · simp [h₂]
    by_cases h₃ : c = '\\'
    · simp [h₃]
    by_cases h₄ : isSeparator c <;> simp [h₁, h₂, h₃, h₄]
  | double =>
    simp only [read, next, emit]
    by_cases h₁ : c = '"'
    · simp [h₁]
    by_cases h₂ : c = '\\' <;> simp [h₁, h₂]
  | escapeBetween | escapeBare | escapeDouble | single =>
    simp only [read, next, emit]
    repeat' split
    all_goals simp only [Option.map_id, id]
  | comment => exact absurd rfl hp

theorem next_ne_comment {p : Place} (hp : p ≠ comment) (c : Char) : p.next c ≠ comment := by
  cases p with
  | comment => exact absurd rfl hp
  | _ =>
    simp only [next]
    repeat' split
    all_goals nofun

theorem after_ne_comment {p : Place} (hp : p ≠ comment) (cs : List Char) :
    p.after cs ≠ comment := by
  induction cs generalizing p with
  | nil => exact hp
  | cons c cs ih => exact ih (next_ne_comment hp c)

/-- **A text in two parts**: without comments, the second part is read from where the first one ends,
and the first part is put in front of its words. -/
theorem read_append {p : Place} (hp : p ≠ comment) (cs ds : List Char) :
    read false p (cs ++ ds) = (read false (p.after cs) ds).map (p.emits cs) := by
  induction cs generalizing p with
  | nil => exact Option.map_id'.symm
  | cons c cs ih =>
    have hc : false = true → p = between → c ≠ '#' := nofun
    rw [List.cons_append, read_cons hp hc, ih (next_ne_comment hp c), Option.map_map]
    rfl

/-! ## Behind a gap -/

theorem push_append (c : Char) {ws : List (List Char)} (h : ws ≠ []) (vs : List (List Char)) :
    push c (ws ++ vs) = push c ws ++ vs := by
  cases ws with
  | nil => exact absurd rfl h
  | cons w ws => rfl

theorem push_ne_nil (c : Char) (ws : List (List Char)) : push c ws ≠ [] := by
  cases ws <;> exact List.cons_ne_nil _ _

/-- A word is open at the place, also if it has no character yet. -/
def isOpen : Place → Bool
  | between | escapeBetween | comment => false
  | _ => true

/-- Text that ends in a gap leaves the words behind it alone; and a word that was open where it began
is among its own. -/
theorem emits_of_gap {p : Place} {cs : List Char} (h : p.after cs = between)
    (ws : List (List Char)) :
    p.emits cs ws = p.emits cs [] ++ ws ∧ (p.isOpen = true → p.emits cs [] ≠ []) := by
  induction cs generalizing p with
  | nil =>
    obtain rfl : p = between := h
    exact ⟨rfl, nofun⟩
  | cons c cs ih =>
    obtain ⟨happ, hne⟩ := ih (p := p.next c) h
    simp only [emits, happ]
    generalize emits (p.next c) cs [] = vs at hne ⊢
    cases p <;> simp only [next, emit] at hne ⊢ <;> grind [push_append, push_ne_nil, isOpen]

/-! ## In front of a word -/

/-- A character is left out, put in front of the first word, ends that word, or has a backslash put in
front of it. -/
theorem emit_cases (p : Place) (c : Char) :
    p.emit c = id ∨ p.emit c = push c ∨ p.emit c = ([] :: ·) ∨
      p.emit c = fun ws => push '\\' (push c ws) := by
  cases p <;> simp only [emit] <;> grind

theorem push_cons (c : Char) (us : List (List Char)) (u : List Char) :
    ∃ us' u', ∀ v vs, push c (us ++ (u ++ v) :: vs) = us' ++ (u' ++ v) :: vs := by
  cases us with
  | nil => exact ⟨[], c :: u, fun _ _ => rfl⟩
  | cons w us => exact ⟨(c :: w) :: us, u, fun _ _ => rfl⟩

/-- A text leaves words of its own and the beginning of the first word of the rest. -/
theorem emits_cons (p : Place) (cs : List Char) :
    ∃ us u, ∀ v vs, p.emits cs (v :: vs) = us ++ (u ++ v) :: vs := by
  induction cs generalizing p with
  | nil => exact ⟨[], [], fun _ _ => rfl⟩
  | cons c cs ih =>
    obtain ⟨us, u, hrest⟩ := ih (p.next c)
    simp only [emits, hrest]
    rcases emit_cases p c with h | h | h | h <;> rw [h]
    · exact ⟨us, u, fun _ _ => rfl⟩
    · exact push_cons c us u
    · exact ⟨[] :: us, u, fun _ _ => rfl⟩
    · obtain ⟨us', u', hpush⟩ := push_cons c us u
      simp only [hpush]
      exact push_cons '\\' us' u'

/-- A word that is open is among the words of the rest. -/
theorem ne_nil_of_read {p : Place} (hp : p.isOpen = true) {cs : List Char} {ws : List (List Char)}
    (h : read false p cs = some ws) : ws ≠ [] := by
  induction cs generalizing p ws with
  | nil => cases p <;> cases h <;> first | exact List.cons_ne_nil _ _ | cases hp
  | cons c cs ih =>
    have hcomment : p ≠ comment := by
      rintro rfl
      cases hp
    have hopens : false = true → p = between → c ≠ '#' := nofun
    rw [read_cons hcomment hopens] at h
    obtain ⟨vs, hvs, rfl⟩ := Option.map_eq_some_iff.1 h
    have hrest : (p.next c).isOpen = true → vs ≠ [] := fun hopen => ih hopen hvs
    cases p <;> simp only [next, emit] at hrest ⊢ <;> grind [push_ne_nil, isOpen]

/-! ## The outline follows the reader -/

/-- The outline of a text that ends at the place. -/
def toOutline : Place → Outline
  | between | comment => {}
  | escapeBetween | escapeBare => { region := .bare, escaped := true }
  | bare => { region := .bare }
  | single => { region := .single }
  | double => { region := .double }
  | escapeDouble => { region := .double, escaped := true }

theorem isSeparator_quote : ∀ d ∈ ['\'', '"', '\\'], isSeparator d = false := by
  simp only [List.mem_cons, List.not_mem_nil, or_false]
  rintro d (rfl | rfl | rfl) <;> rfl

/-- After an escaped line feed a gap stays a gap for the reader, which the outline does not know. -/
theorem toOutline_next {p : Place} (hp : p ≠ comment) {c : Char}
    (hc : p = escapeBetween → c ≠ '\n') : (p.next c).toOutline = p.toOutline.next c := by
  have hquote := isSeparator_quote
  cases p with
  | comment => exact absurd rfl hp
  | between | bare =>
    simp only [next, Outline.next, toOutline, Outline.inWord, Bool.false_eq_true, if_false]
    grind
  | single | double =>
    simp only [next, Outline.next, toOutline, Bool.false_eq_true, if_false]
    grind
  | escapeBetween => simp only [next, Outline.next, toOutline, if_true, hc rfl, if_false]
  | escapeBare | escapeDouble => simp only [next, Outline.next, toOutline, if_true]

theorem toOutline_after {p : Place} (hp : p ≠ comment) {cs : List Char} (h : '\n' ∉ cs) :
    (p.after cs).toOutline = cs.foldl Outline.next p.toOutline := by
  induction cs generalizing p with
  | nil => rfl
  | cons c cs ih =>
    rw [List.mem_cons, not_or] at h
    obtain ⟨hc, hcs⟩ := h
    rw [List.foldl_cons, ← toOutline_next hp fun _ => Ne.symm hc, ← ih (next_ne_comment hp c) hcs]
    rfl

/-- Words begin in gaps, with anything but a separator. -/
theorem begins_toOutline {p : Place} (hp : p ≠ comment) (c : Char) :
    p.toOutline.begins c = (p == between && !isSeparator c) := by
  cases p with
  | comment => exact absurd rfl hp
  | _ => cases hc : isSeparator c <;> simp only [toOutline, Outline.begins, hc] <;> rfl

/-- The outline stands where the reader does, or it has taken a gap for the inside of a word. -/
def Trails (o : Outline) (p : Place) : Prop :=
  o = p.toOutline ∨ p = between ∧ o = { region := .bare }

/-- After any character but a line feed that is escaped in a gap, the outline stands where the reader
does. -/
theorem Trails.next_eq {o : Outline} {p : Place} (h : Trails o p) (hp : p ≠ comment) {c : Char}
    (hc : p = escapeBetween → c ≠ '\n') : o.next c = (p.next c).toOutline := by
  rcases h with rfl | ⟨rfl, rfl⟩
  · exact (toOutline_next hp hc).symm
  · -- the outline treats a gap as it does the inside of a word
    exact (toOutline_next (p := between) nofun nofun).symm

theorem Trails.next {o : Outline} {p : Place} (h : Trails o p) (hp : p ≠ comment) (c : Char) :
    Trails (o.next c) (p.next c) := by
  by_cases hfeed : p = escapeBetween ∧ c = '\n'
  · obtain ⟨rfl, rfl⟩ := hfeed
    obtain rfl : o = escapeBetween.toOutline := h.resolve_right nofun
    exact .inr ⟨rfl, rfl⟩
  · exact .inl (h.next_eq hp fun hplace hc => hfeed ⟨hplace, hc⟩)

/-- A `#` of the text begins a word for the reader and none for the outline: it gets no mark. -/
def Misses : Outline → Place → List Char → Prop
  | _, _, [] => False
  | o, p, c :: cs => (c = '#' ∧ p = between ∧ o ≠ {}) ∨ Misses (o.next c) (p.next c) cs

instance : (o : Outline) → (p : Place) → (cs : List Char) → Decidable (Misses o p cs)
  | _, _, [] => inferInstanceAs (Decidable False)
  | o, p, c :: cs =>
    have := instDecidableMisses (o.next c) (p.next c) cs
    inferInstanceAs (Decidable ((c = '#' ∧ p = between ∧ o ≠ {}) ∨ _))

/-- Without line feeds no mark is missed. -/
theorem not_misses {p : Place} (hp : p ≠ comment) {cs : List Char} (h : '\n' ∉ cs) :
    ¬Misses p.toOutline p cs := by
  induction cs generalizing p with
  | nil => exact id
  | cons c cs ih =>
    rw [List.mem_cons, not_or] at h
    obtain ⟨hc, hcs⟩ := h
    rintro (⟨-, rfl, hne⟩ | hrest)
    · exact hne rfl
    · rw [← toOutline_next hp fun _ => Ne.symm hc] at hrest
      exact ih (next_ne_comment hp c) hcs hrest

theorem begins_hash_iff {o : Outline} : o.begins '#' = true ↔ o = {} := by
  obtain ⟨region, escaped⟩ := o
  cases region <;> cases escaped <;> simp [Outline.begins, isSeparator]

/-- A marked `#` is read as itself, and so is every other character that opens no comment. -/
theorem read_mark {o : Outline} {p : Place} (hp : p ≠ comment) (ho : Trails o p) {c : Char}
    (hc : ¬(c = '#' ∧ p = between ∧ o ≠ {})) (cs ds : List Char) :
    read true p (escapeHashesFrom o (c :: cs) ++ ds) =
      (read true (p.next c) (escapeHashesFrom (o.next c) cs ++ ds)).map (p.emit c) := by
  rw [escapeHashesFrom]
  split
  · next hmark =>
    obtain ⟨hbegins, hhash⟩ := Bool.and_eq_true_iff.1 hmark
    obtain rfl := eq_of_beq hhash
    obtain rfl := begins_hash_iff.1 hbegins
    obtain rfl : p = between := by
      rcases ho with ho | ⟨rfl, -⟩
      · cases p <;> first | rfl | exact absurd rfl hp | cases ho
      · rfl
    rfl
  · next hmark =>
    refine read_cons hp ?_ _
    rintro - rfl rfl
    refine hc ⟨rfl, rfl, fun ho => hmark ?_⟩
    rw [begins_hash_iff.2 ho]
    rfl

/-- Where no mark is missed, the reader goes on as if there were no comments. -/
theorem read_marked {o : Outline} {p : Place} (hp : p ≠ comment) (ho : Trails o p)
    {cs : List Char} (h : ¬Misses o p cs) (ds : List Char) :
    read true p (escapeHashesFrom o cs ++ ds) = (read true (p.after cs) ds).map (p.emits cs) := by
  induction cs generalizing o p with
  | nil => exact Option.map_id'.symm
  | cons c cs ih =>
    obtain ⟨hfirst, hrest⟩ := not_or.1 h
    rw [read_mark hp ho hfirst, ih (next_ne_comment hp c) (ho.next hp c) hrest, Option.map_map]
    rfl

/-- In a text without line feeds the reader goes on as if there were no comments. -/
theorem read_escapeHashes {p : Place} (hp : p ≠ comment) {cs : List Char} (h : '\n' ∉ cs)
    (ds : List Char) :
    read true p (escapeHashesFrom p.toOutline cs ++ ds) =
      (read true (p.after cs) ds).map (p.emits cs) :=
  read_marked hp (.inl rfl) (not_misses hp h) ds

/-! ## As many words as begin -/

/-- The place lies in a word that has begun. -/
def inWord (p : Place) : Nat := if p = between then 0 else 1

theorem length_push (c : Char) {ws : List (List Char)} (h : 1 ≤ ws.length) :
    (push c ws).length = ws.length := by
  cases ws with
  | nil => cases h
  | cons w ws => rfl

/-- A character adds a word to those of the rest if one begins with it; a word that was open before
it ends or is the first one of the rest. -/
theorem length_emit {p : Place} (hp : p ≠ comment) {c : Char} (hc : c ≠ '\n')
    (ws : List (List Char)) (hws : inWord (p.next c) ≤ ws.length) :
    (p.emit c ws).length + inWord (p.next c) =
      (if p.toOutline.begins c then 1 else 0) + inWord p + ws.length := by
  have hquote := isSeparator_quote
  rw [begins_toOutline hp]
  cases p with
  | comment => exact absurd rfl hp
  | _ => simp only [next, emit, inWord] at hws ⊢; grind [length_push]

/-- **As many words are read as begin.** Every word that begins in a text adds one to the words of the
rest, and a word that was open where the text began ends in it or is open still. -/
theorem length_emits {p : Place} (hp : p ≠ comment) {cs : List Char} (h : '\n' ∉ cs) (n : Nat)
    (ws : List (List Char)) (hws : inWord (p.after cs) ≤ ws.length) :
    (p.emits cs ws).length + inWord (p.after cs) =
      (startsFrom p.toOutline n cs).length + inWord p + ws.length := by
  induction cs generalizing p n with
  | nil => simp [emits, after, startsFrom, Nat.add_comm]
  | cons c cs ih =>
    rw [List.mem_cons, not_or] at h
    obtain ⟨hc, hcs⟩ := h
    have hrest := ih (next_ne_comment hp c) hcs (n + 1) hws
    rw [toOutline_next hp fun _ => Ne.symm hc] at hrest
    have hafter : (p.next c).after cs = p.after (c :: cs) := rfl
    rw [hafter] at hrest
    have hfirst := length_emit hp (Ne.symm hc) ((p.next c).emits cs ws) (by omega)
    rw [startsFrom, emits]
    cases hbegins : p.toOutline.begins c <;>
      simp only [hbegins, Bool.false_eq_true, if_true, if_false, List.length_cons] at hfirst ⊢ <;>
      omega

end Place

end Parley.Words
