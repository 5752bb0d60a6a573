/-!
# Hexadecimal digits

Digits beyond nine are the letters `a` to `f`: small ones are written, both are read.
`hexNumber?_hexDigits` says that what is written reads back.
-/

set_option autoImplicit false

namespace Parley.Text

def hexDigit (n : Nat) : Char :=
  if n < 10 then Char.ofNat ('0'.toNat + n) else Char.ofNat ('a'.toNat + (n - 10))

def hexValue? (c : Char) : Option Nat :=
  if c.isDigit then some (c.toNat - '0'.toNat)
  else if 'a' ≤ c && c ≤ 'f' then some (c.toNat - 'a'.toNat + 10)
  else if 'A' ≤ c && c ≤ 'F' then some (c.toNat - 'A'.toNat + 10)
  else none

theorem hexValue?_hexDigit {n : Nat} (h : n < 16) : hexValue? (hexDigit n) = some n := by
  have all : ∀ k : Fin 16, hexValue? (hexDigit k) = some k.val := by decide
  exact all ⟨n, h⟩

/-- The last `n` hexadecimal digits of a number. -/
def hexDigits : Nat → Nat → List Char
  | 0, _ => []
  | n + 1, value => hexDigits n (value / 16) ++ [hexDigit (value % 16)]

/-- The number that hexadecimal digits denote after those of `n`. -/
def hexNumber? (n : Nat) : List Char → Option Nat
  | [] => some n
  | c :: cs =>
    match hexValue? c with
    | some d => hexNumber? (n * 16 + d) cs
    | none => none

theorem length_hexDigits (n value : Nat) : (hexDigits n value).length = n := by
  induction n generalizing value with
  | zero => rfl
  | succ n ih => rw [hexDigits, List.length_append, ih]; rfl

theorem hexNumber?_append (n : Nat) (cs ds : List Char) :
    hexNumber? n (cs ++ ds) = (hexNumber? n cs).bind (hexNumber? · ds) := by
  induction cs generalizing n with
  | nil => rfl
  | cons c cs ih =>
    rw [List.cons_append, hexNumber?, hexNumber?]
    rcases hexValue? c with _ | d
    · rfl
    · exact ih _

theorem hexNumber?_hexDigits (n value : Nat) :
    hexNumber? 0 (hexDigits n value) = some (value % Nat.pow 16 n) := by
  induction n generalizing value with
  | zero => simp [hexDigits, hexNumber?, Nat.mod_one]
  | succ n ih =>
    have last : value % 16 < 16 := Nat.mod_lt _ (by decide)
    have power : Nat.pow 16 (n + 1) = 16 * Nat.pow 16 n := Nat.pow_succ'
    rw [hexDigits, hexNumber?_append, ih, Option.bind_some, power, Nat.mod_mul]
    simp only [hexNumber?, hexValue?_hexDigit last]
    congr 1
    omega

end Parley.Text
