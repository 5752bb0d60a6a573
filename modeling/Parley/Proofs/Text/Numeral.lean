import Mathlib.Data.List.TakeDrop
import Parley.Text.Numeral

/-!
# Numerals that are written

The decimal digits of a number stand for that number, and a number below the bound reads back from
what is written of it (`readNumeral_toString`). What reads as a number is below the bound
(`lt_of_readNumeral`).
-/

set_option autoImplicit false

namespace Parley.Text

/-! ## Digits and what follows them -/

section
variable {cs rest : List Char}

/-- Digits end before what is none. -/
theorem takeWhile_isDigit_append (hdigits : ∀ c ∈ cs, c.isDigit = true)
    (hrest : ∀ c ∈ rest.head?, c.isDigit = false) : (cs ++ rest).takeWhile Char.isDigit = cs := by
  have hnone : rest.takeWhile Char.isDigit = [] := by
    cases rest with
    | nil => rfl
    | cons c rest => rw [List.takeWhile_cons_of_neg (by simp [hrest c rfl])]
  rw [List.takeWhile_append_of_pos hdigits, hnone, List.append_nil]

theorem dropWhile_isDigit_append (hdigits : ∀ c ∈ cs, c.isDigit = true)
    (hrest : ∀ c ∈ rest.head?, c.isDigit = false) : (cs ++ rest).dropWhile Char.isDigit = rest := by
  rw [List.dropWhile_append_of_pos hdigits]
  cases rest with
  | nil => rfl
  | cons c rest => rw [List.dropWhile_cons_of_neg (by simp [hrest c rfl])]

/-- Where a digit stands, nothing else does. -/
theorem append_ne_cons_of_isDigit {c : Char} {ds : List Char} (hne : cs ≠ [])
    (hdigits : ∀ c ∈ cs, c.isDigit = true) (hc : c.isDigit = false) : cs ++ rest ≠ c :: ds := by
  cases cs with
  | nil => exact absurd rfl hne
  | cons d cs =>
    rintro ⟨⟩
    cases hc.symm.trans (hdigits c List.mem_cons_self)

end

/-! ## Numerals -/

theorem le_ofDigitChars (cs : List Char) (n : Nat) : n ≤ Nat.ofDigitChars 10 cs n := by
  rw [Nat.ofDigitChars_eq_ofDigitChars_zero]
  exact Nat.le_add_right_of_le (Nat.le_mul_of_pos_left n (Nat.pow_pos (by decide)))

/-- Digits are read as the number that they denote, if that is below the bound. -/
theorem readDigits_eq {bound value : Nat} {cs : List Char} (hdigits : ∀ c ∈ cs, c.isDigit = true)
    (h : Nat.ofDigitChars 10 cs value < bound) :
    readDigits bound value cs = .ok (Nat.ofDigitChars 10 cs value) := by
  induction cs generalizing value with
  | nil => rfl
  | cons c cs ih =>
    rw [Nat.ofDigitChars_cons, Nat.mul_comm] at h ⊢
    have hnext : value * 10 + digitValue c < bound := Nat.lt_of_le_of_lt (le_ofDigitChars cs _) h
    rw [readDigits, if_pos (hdigits c List.mem_cons_self)]
    simp only [hnext, if_true]
    exact ih (fun d hd => hdigits d (List.mem_cons_of_mem _ hd)) h

theorem isDigit_of_mem_toDigits {n : Nat} {c : Char} (h : c ∈ Nat.toDigits 10 n) :
    c.isDigit = true := Nat.isDigit_of_mem_toDigits (by decide) (by decide) h

/-- No number is written with a zero before other digits. -/
theorem head?_toDigits_ne {n : Nat} (h : n ≠ 0) : (Nat.toDigits 10 n).head? ≠ some '0' := by
  induction n using Nat.strongRecOn with
  | _ n ih =>
    rw [Nat.toDigits_eq_if (by decide)]
    split
    · next hlt =>
      have hall : ∀ k : Fin 10, k.val ≠ 0 → [k.val.digitChar].head? ≠ some '0' := by decide
      exact hall ⟨n, hlt⟩ h
    · next hge =>
      rw [List.head?_append, Option.or_of_isSome (List.isSome_head?.mpr Nat.toDigits_ne_nil)]
      exact ih (n / 10) (by omega) (by omega)

/-- What is written of a number reads back. -/
theorem readNumeral_toString {bound n : Nat} (h : n < bound) :
    readNumeral bound (toString n) = .ok n := by
  have hread : readDigits bound 0 (Nat.toDigits 10 n) = .ok n := by
    have hvalue : Nat.ofDigitChars 10 (Nat.toDigits 10 n) 0 = n := Nat.ofDigitChars_ten_toDigits
    rw [readDigits_eq (fun c => isDigit_of_mem_toDigits) (by rwa [hvalue]), hvalue]
  rw [readNumeral, Nat.toString_eq_ofList_toDigits, String.toList_ofList]
  cases hdigits : Nat.toDigits 10 n with
  | nil => exact absurd hdigits Nat.toDigits_ne_nil
  | cons c cs =>
    have hc : c ≠ '+' := by
      rintro rfl
      have hplus : '+' ∈ Nat.toDigits 10 n := hdigits ▸ List.mem_cons_self
      exact absurd (isDigit_of_mem_toDigits hplus) (by decide)
    rw [hdigits] at hread
    split
    · next heq => cases heq
    · next heq => exact absurd (List.cons.inj heq).1 hc
    · next heq => exact absurd (List.cons.inj heq).1 hc
    · exact hread

theorem lt_of_readDigits {bound value n : Nat} {cs : List Char} (hvalue : value < bound)
    (h : readDigits bound value cs = .ok n) : n < bound := by
  induction cs generalizing value with
  | nil =>
    cases h
    exact hvalue
  | cons c cs ih =>
    simp only [readDigits] at h
    split at h
    · split at h
      · next hnext => exact ih hnext h
      · cases h
    · cases h

/-- What reads as a number is below the bound. -/
theorem lt_of_readNumeral {bound n : Nat} {s : String} (hbound : 0 < bound)
    (h : readNumeral bound s = .ok n) : n < bound := by
  unfold readNumeral at h
  split at h
  · cases h
  · cases h
  · exact lt_of_readDigits hbound h
  · exact lt_of_readDigits hbound h

end Parley.Text
