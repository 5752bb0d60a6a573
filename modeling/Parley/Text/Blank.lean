/-!
# Blank characters

The characters with Unicode's `White_Space` property, and the operations on text that are defined
by them: trimming, and cutting a text into its words. `isBlank_of_isWhitespace` says that every
ASCII blank of core is one of them. A text can also be cut at a separator; `intercalate_splitChars`
says that nothing is lost.
-/

set_option autoImplicit false

namespace Parley.Text

/-- The characters with the `White_Space` property: 25 code points. -/
def isBlank (c : Char) : Bool :=
  let n := c.toNat
  (9 ≤ n && n ≤ 13) || n == 0x20 || n == 0x85 || n == 0xA0 || n == 0x1680 ||
    (0x2000 ≤ n && n ≤ 0x200A) || n == 0x2028 || n == 0x2029 || n == 0x202F || n == 0x205F ||
    n == 0x3000

theorem isBlank_of_isWhitespace {c : Char} (h : c.isWhitespace = true) : isBlank c = true := by
  simp only [Char.isWhitespace, Bool.or_eq_true, decide_eq_true_eq] at h
  rcases h with ((h | h) | h) | h <;> subst h <;> decide

def trimStartChars (cs : List Char) : List Char := cs.dropWhile isBlank

def trimChars (cs : List Char) : List Char :=
  (trimStartChars (trimStartChars cs).reverse).reverse

def trimStart (s : String) : String := String.ofList (trimStartChars s.toList)

def trim (s : String) : String := String.ofList (trimChars s.toList)

/-- The maximal runs of characters that are not blank; `run` is the run before `cs`, reversed. -/
def blankRuns (run : List Char) : List Char → List (List Char)
  | [] => if run.isEmpty then [] else [run.reverse]
  | c :: cs =>
    if isBlank c then
      if run.isEmpty then blankRuns [] cs else run.reverse :: blankRuns [] cs
    else blankRuns (c :: run) cs

/-- The words of `s`: its maximal runs of characters that are not blank. -/
def words (s : String) : List String := (blankRuns [] s.toList).map String.ofList

/-- `s` with its ASCII capitals made small. A letter outside ASCII keeps its form, which is enough
to compare with words of the letters `y`, `e`, `s`, `n` and `o`: no other letter's small form
contains one of these. -/
def lowerASCII (s : String) : String := String.ofList (s.toList.map Char.toLower)

/-- The pieces of `cs` between the separators `sep`; one more piece than separators. -/
def splitChars (sep : Char) : List Char → List (List Char)
  | [] => [[]]
  | c :: cs =>
    if c = sep then [] :: splitChars sep cs
    else match splitChars sep cs with
      | [] => [[c]]
      | piece :: rest => (c :: piece) :: rest

theorem splitChars_ne_nil (sep : Char) (cs : List Char) : splitChars sep cs ≠ [] := by
  fun_induction splitChars sep cs <;> simp_all

theorem length_splitChars (sep : Char) (cs : List Char) :
    (splitChars sep cs).length = cs.count sep + 1 := by
  induction cs with
  | nil => rfl
  | cons c cs ih =>
    by_cases h : c = sep
    · rw [splitChars, if_pos h, List.length_cons, ih, h, List.count_cons_self]
    · have hne := splitChars_ne_nil sep cs
      rw [splitChars, if_neg h, List.count_cons_of_ne (by simpa using h)]
      rcases hp : splitChars sep cs with _ | ⟨piece, rest⟩
      · exact absurd hp hne
      · simpa [hp] using ih

theorem intercalate_splitChars (sep : Char) (cs : List Char) :
    [sep].intercalate (splitChars sep cs) = cs := by
  induction cs with
  | nil => rfl
  | cons c cs ih =>
    have hne := splitChars_ne_nil sep cs
    rcases hp : splitChars sep cs with _ | ⟨piece, rest⟩
    · exact absurd hp hne
    rw [hp] at ih
    by_cases h : c = sep
    · rw [splitChars, if_pos h, hp, List.intercalate_cons_cons, ih, h]
      rfl
    · rw [splitChars, if_neg h, hp]
      rcases rest with _ | ⟨next, rest⟩
      · simpa using ih
      · rw [List.intercalate_cons_cons] at ih ⊢
        rw [← ih]
        rfl

def splitOnChar (sep : Char) (s : String) : List String :=
  (splitChars sep s.toList).map String.ofList

end Parley.Text
