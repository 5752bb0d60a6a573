import Parley.Words.Grammar

/-!
# Where words begin

The outline of a text: at which characters a word begins, whether the text ends between two words,
and whether its last character is a backslash that escapes nothing. Only quotes, backslashes and
separators count here; a `#` is a character like any other. The outline of a text in two parts is
that of the second part, begun where the first one ends: `outline_append`, `startsFrom_append`,
`escapeHashesFrom_append`.
-/

set_option autoImplicit false

namespace Parley.Words

inductive Region
  | gap
  | bare
  | single
  | double
  deriving DecidableEq, Repr

/-- What the characters before a point of a text say about it. -/
structure Outline where
  region : Region := .gap
  /-- The character before is a backslash that escapes the next one. -/
  escaped : Bool := false
  deriving DecidableEq, Repr

namespace Outline

def inWord (c : Char) : Outline :=
  if c = '\'' then { region := .single }
  else if c = '"' then { region := .double }
  else { region := .bare, escaped := c == '\\' }

def next (o : Outline) (c : Char) : Outline :=
  if o.escaped then { o with escaped := false }
  else match o.region with
    | .gap | .bare => if isSeparator c then {} else inWord c
    | .single => { region := if c = '\'' then .bare else .single }
    | .double => if c = '"' then { region := .bare } else { region := .double, escaped := c == '\\' }

/-- Whether a word begins with the character `c`. -/
def begins (o : Outline) (c : Char) : Bool :=
  !o.escaped && o.region == .gap && !isSeparator c

/-- The point lies between words: a word typed here is a new one. -/
def atGap (o : Outline) : Bool := o.region == .gap && !o.escaped

end Outline

def outline (cs : List Char) : Outline := cs.foldl Outline.next {}

/-- The places, counted from `n`, at which words begin. -/
def startsFrom (o : Outline) (n : Nat) : List Char → List Nat
  | [] => []
  | c :: cs =>
    if o.begins c then n :: startsFrom (o.next c) (n + 1) cs
    else startsFrom (o.next c) (n + 1) cs

def starts (cs : List Char) : List Nat := startsFrom {} 0 cs

/-- The text without a last backslash that escapes nothing. -/
def dropDangling (cs : List Char) : List Char :=
  if (outline cs).escaped then cs.dropLast else cs

/-- The text with a backslash before each `#` that begins a word, from the outline `o` on. -/
def escapeHashesFrom (o : Outline) : List Char → List Char
  | [] => []
  | c :: cs =>
    if o.begins c && c == '#' then '\\' :: c :: escapeHashesFrom (o.next c) cs
    else c :: escapeHashesFrom (o.next c) cs

/-- The text with a backslash before each `#` that begins a word, so that none opens a comment. -/
def escapeHashes (cs : List Char) : List Char := escapeHashesFrom {} cs

/-! ## Texts in two parts -/

theorem outline_append (cs ds : List Char) :
    outline (cs ++ ds) = ds.foldl Outline.next (outline cs) := List.foldl_append

theorem startsFrom_append (o : Outline) (n : Nat) (cs ds : List Char) :
    startsFrom o n (cs ++ ds) =
      startsFrom o n cs ++ startsFrom (cs.foldl Outline.next o) (n + cs.length) ds := by
  induction cs generalizing o n with
  | nil => rfl
  | cons c cs ih =>
    simp only [List.cons_append, startsFrom, ih, List.foldl_cons, List.length_cons,
      Nat.add_right_comm n 1, ← Nat.add_assoc]
    split <;> rfl

theorem escapeHashesFrom_append (o : Outline) (cs ds : List Char) :
    escapeHashesFrom o (cs ++ ds) =
      escapeHashesFrom o cs ++ escapeHashesFrom (cs.foldl Outline.next o) ds := by
  induction cs generalizing o with
  | nil => rfl
  | cons c cs ih =>
    simp only [List.cons_append, escapeHashesFrom, ih, List.foldl_cons]
    split <;> rfl

theorem escapeHashesFrom_of_not_mem (o : Outline) {cs : List Char} (h : '#' ∉ cs) :
    escapeHashesFrom o cs = cs := by
  induction cs generalizing o with
  | nil => rfl
  | cons c cs ih =>
    have hc : c ≠ '#' := fun e => h (e ▸ List.mem_cons_self)
    rw [escapeHashesFrom, if_neg (by simp [hc]), ih _ fun hm => h (List.mem_cons_of_mem _ hm)]

end Parley.Words
