import Mathlib.Data.List.Basic
import Mathlib.Data.List.TakeDrop
import Parley.Document.Scalar
import Parley.Proofs.Text.Numeral

/-!
# Numbers and truth values read back

The digits of a number are read as that number (`readScalar?_toDigits`), the words for truth values
as these.
-/

set_option autoImplicit false

namespace Parley.Document

/-! ## Digits -/

theorem hexValue?_of_isDigit {c : Char} (h : c.isDigit = true) :
    Text.hexValue? c = some (c.toNat - '0'.toNat) := if_pos h

theorem isDigitIn_of_isDigit {c : Char} (h : c.isDigit = true) : isDigitIn 10 c = true := by
  have hrange := h
  simp only [Char.isDigit, Bool.and_eq_true, decide_eq_true_eq, UInt32.le_iff_toNat_le] at hrange
  have hlt : c.toNat - '0'.toNat < 10 := by
    have hle : c.toNat ≤ 57 := hrange.2
    have hzero : '0'.toNat = 48 := rfl
    omega
  simpa only [isDigitIn, hexValue?_of_isDigit h, Option.any_some, decide_eq_true_eq] using hlt

theorem digits?_of_isDigit {cs : List Char} (hne : cs ≠ []) (h : ∀ c ∈ cs, c.isDigit = true) :
    digits? 10 cs = some cs := by
  induction cs with
  | nil => exact absurd rfl hne
  | cons c cs ih =>
    have hc : isDigitIn 10 c = true := isDigitIn_of_isDigit (h c List.mem_cons_self)
    cases cs with
    | nil => simp only [digits?, hc, if_true]
    | cons d ds =>
      have hd : d ≠ '_' := by
        rintro rfl
        exact absurd (h '_' (List.mem_cons_of_mem _ List.mem_cons_self)) (by decide)
      have hrest := ih (List.cons_ne_nil d ds) fun e he => h e (List.mem_cons_of_mem _ he)
      rw [digits?, if_pos hc, hrest]
      · rfl
      · nofun
      · exact fun _ heq => hd (List.cons.inj heq).1

theorem numberOf_of_isDigit {cs : List Char} (h : ∀ c ∈ cs, c.isDigit = true) :
    numberOf 10 cs = Nat.ofDigitChars 10 cs 0 := by
  rw [numberOf, Nat.ofDigitChars_eq_foldl]
  refine List.foldl_ext _ _ 0 fun n c hc => ?_
  rw [hexValue?_of_isDigit (h c hc), Option.getD_some, Nat.mul_comm]

/-- The digits of a number are no numeral of another radix and have no sign. -/
theorem decimalDigits?_toDigits (n : Nat) :
    decimalDigits? (Nat.toDigits 10 n) = some (Nat.toDigits 10 n) := by
  rw [decimalDigits?, digits?_of_isDigit Nat.toDigits_ne_nil fun c => Text.isDigit_of_mem_toDigits]
  split
  · next heq =>
    by_cases hn : n = 0
    · subst hn
      cases heq
    · refine absurd ?_ (Text.head?_toDigits_ne hn)
      rw [Option.some.inj heq]
      rfl
  · rfl

/-! ## Numbers -/

/-- The digits of a number are read as the number. -/
theorem integer?_toDigits {n : Nat} (h : (n : Int) ≤ maxInt) :
    integer? (Nat.toDigits 10 n) = some (n : Int) := by
  have hdigits : ∀ c ∈ Nat.toDigits 10 n, c.isDigit = true :=
    fun c => Text.isDigit_of_mem_toDigits
  have hsign : sign (Nat.toDigits 10 n) = (false, Nat.toDigits 10 n) := by
    unfold sign
    split
    · next heq => exact absurd (hdigits '-' (heq ▸ List.mem_cons_self)) (by decide)
    · next heq => exact absurd (hdigits '+' (heq ▸ List.mem_cons_self)) (by decide)
    · rfl
  have hvalue : numberOf 10 (Nat.toDigits 10 n) = n := by
    rw [numberOf_of_isDigit hdigits, Nat.ofDigitChars_ten_toDigits]
  have hmin : minInt ≤ (n : Int) := Int.le_trans (by decide) (Int.natCast_nonneg n)
  -- no digit is the letter of a radix
  have hradix : ∀ {r : Char} {ds : List Char}, r.isDigit = false →
      Nat.toDigits 10 n ≠ '0' :: r :: ds := by
    intro r ds hr heq
    have hmem : r ∈ Nat.toDigits 10 n := by
      rw [heq]
      exact List.mem_cons_of_mem _ List.mem_cons_self
    exact absurd (hdigits r hmem) (by simp [hr])
  unfold integer?
  split
  · next heq => exact absurd heq (hradix (by decide))
  · next heq => exact absurd heq (hradix (by decide))
  · next heq => exact absurd heq (hradix (by decide))
  · simp [hsign, decimalDigits?_toDigits, hvalue, hmin, h]

/-- The digits of a number are the value of that number. -/
theorem scalar?_toDigits {n : Nat} (h : (n : Int) ≤ maxInt) :
    scalar? (Nat.toDigits 10 n) = some (.int n) := by
  have hword : ∀ {c : Char} {cs : List Char}, c.isDigit = false → Nat.toDigits 10 n ≠ c :: cs := by
    intro c cs hc heq
    have hmem : c ∈ Nat.toDigits 10 n := heq ▸ List.mem_cons_self
    exact absurd (Text.isDigit_of_mem_toDigits hmem) (by simp [hc])
  rw [scalar?, if_neg (hword (by decide)), if_neg (hword (by decide)), integer?_toDigits h]

/-! ## Values at the end of a line -/

/-- An unquoted value ends with the line. -/
theorem readScalar?_lineEnd {run : List Char} (hrun : run.all (!endsScalar ·) = true) {v : Node}
    (h : scalar? run = some v) (rest : List Char) :
    readScalar? (run ++ '\n' :: rest) = some (v, '\n' :: rest) := by
  have hspan : (run ++ '\n' :: rest).span (fun c => !endsScalar c) = (run, '\n' :: rest) := by
    have hall : ∀ c ∈ run, (!endsScalar c) = true := List.all_eq_true.mp hrun
    rw [List.span_eq_takeWhile_dropWhile, List.takeWhile_append_of_pos hall,
      List.dropWhile_append_of_pos hall]
    simp [endsScalar]
  have htext : scalarText (run ++ '\n' :: rest) = (run, '\n' :: rest) := by
    rw [scalarText, hspan]
    rfl
  rw [readScalar?, htext]
  simp only [h, Option.map_some]

end Parley.Document
