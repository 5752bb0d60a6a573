import Mathlib.Data.List.Basic
import Mathlib.Data.List.TakeDrop
import Parley.Proofs.Text.Numeral
import Parley.Proofs.Value.Shape
import Parley.Value.Printer

/-!
# Texts and integers read back

A text is written in quotes with escapes, and what is written is read as that text
(`quotedText_quoteChars`). An integer that 64 bits hold is read from its digits (`number_intChars`),
as long as no sign of a longer number follows; no other integer is ever read (`int?_range`).
-/

set_option autoImplicit false

namespace Parley.Value

variable {cs rest : List Char} {n : Nat}

theorem skipSpace_cons {c : Char} (h : isSpace c = false) (cs : List Char) :
    skipSpace (c :: cs) = c :: cs := by
  rw [skipSpace, List.dropWhile_cons_of_neg (by simp [h])]

/-! ## Texts -/

theorem hexQuad_hexDigits {high low : Nat} (hhigh : high < 16) (hlow : low < 16)
    (rest : List Char) :
    hexQuad ('0' :: '0' :: Text.hexDigit high :: Text.hexDigit low :: rest) =
      .ok (high * 16 + low, rest) := by
  have hzero : Text.hexValue? '0' = some 0 := by decide
  simp [hexQuad, hzero, Text.hexValue?_hexDigit hhigh, Text.hexValue?_hexDigit hlow]

/-- The escape of a character is read as that character. -/
theorem textBody_escapeChar (fuel : Nat) (done : List Char) (c : Char) (cs : List Char) :
    textBody false (fuel + 1) done (escapeChar c ++ cs) = textBody false fuel (c :: done) cs := by
  unfold escapeChar
  split
  · next h => subst h; rfl
  split
  · next h => subst h; rfl
  split
  · next h => subst h; rfl
  split
  · next h => subst h; rfl
  split
  · next h => subst h; rfl
  split
  · next h => subst h; rfl
  split
  · next h => subst h; rfl
  split
  · next hcontrol =>
    have hhigh : c.toNat / 16 < 16 := by omega
    have hquad := hexQuad_hexDigits hhigh (Nat.mod_lt c.toNat (by decide : 0 < 16)) cs
    have hvalue : c.toNat / 16 * 16 + c.toNat % 16 = c.toNat := by omega
    have hescape : escape false ('u' :: '0' :: '0' :: Text.hexDigit (c.toNat / 16) ::
        Text.hexDigit (c.toNat % 16) :: cs) = .ok (c, cs) := by
      have hlow : ¬(0xDC00 ≤ c.toNat) := by omega
      have hhigh : ¬(0xD800 ≤ c.toNat) := by omega
      simp [escape, unicodeEscape, hquad, hvalue, hlow, hhigh]
    simp [textBody, hescape]
  · next hquote hslash _ _ _ _ _ hplain =>
    rw [List.singleton_append, textBody, if_neg hquote, if_neg hslash, if_neg hplain]

/-- Escaped characters are read up to the closing quote. -/
theorem textBody_flatMap_escapeChar {fuel : Nat} (cs rest done : List Char)
    (hfuel : cs.length < fuel) :
    textBody false fuel done (cs.flatMap escapeChar ++ '"' :: rest) =
      .ok (String.ofList (done.reverse ++ cs), rest) := by
  induction cs generalizing fuel done with
  | nil =>
    cases fuel with
    | zero => cases hfuel
    | succ fuel => simp [textBody]
  | cons c cs ih =>
    cases fuel with
    | zero => cases hfuel
    | succ fuel =>
      rw [List.flatMap_cons, List.append_assoc, textBody_escapeChar,
        ih _ (Nat.lt_of_succ_lt_succ hfuel)]
      simp

theorem length_escapeChar_pos (c : Char) : 0 < (escapeChar c).length := by
  unfold escapeChar
  repeat' split
  all_goals simp

theorem length_le_length_flatMap_escapeChar (cs : List Char) :
    cs.length ≤ (cs.flatMap escapeChar).length := by
  induction cs with
  | nil => exact Nat.le_refl _
  | cons c cs ih =>
    have hpos := length_escapeChar_pos c
    rw [List.flatMap_cons, List.length_append, List.length_cons]
    omega

theorem quoteChars_append (s : String) (rest : List Char) :
    quoteChars s ++ rest = '"' :: (s.toList.flatMap escapeChar ++ '"' :: rest) := by
  simp [quoteChars]

theorem skipSpace_quoteChars (s : String) (rest : List Char) :
    skipSpace (quoteChars s ++ rest) = '"' :: (s.toList.flatMap escapeChar ++ '"' :: rest) := by
  rw [quoteChars_append, skipSpace_cons rfl]

/-- **A text is read back** from its quoted form. -/
theorem quotedText_quoteChars (s : String) (rest : List Char) :
    quotedText false (s.toList.flatMap escapeChar ++ '"' :: rest) = .ok (s, rest) := by
  have hlength := length_le_length_flatMap_escapeChar s.toList
  have hfuel : s.toList.length <
      (s.toList.flatMap escapeChar ++ '"' :: rest).length + 1 := by
    rw [List.length_append, List.length_cons]
    omega
  rw [quotedText, textBody_flatMap_escapeChar _ _ _ hfuel, List.reverse_nil, List.nil_append,
    String.ofList_toList]

/-! ## Integers -/

/-- What follows does not go on with a number. -/
def EndsNumber (rest : List Char) : Prop :=
  ∀ c ∈ rest.head?, c.isDigit = false ∧ c ≠ '.' ∧ c ≠ 'e' ∧ c ≠ 'E'

theorem digitsValue_eq (cs : List Char) : Numeral.digitsValue cs = Nat.ofDigitChars 10 cs 0 := by
  rw [Numeral.digitsValue, Nat.ofDigitChars_eq_foldl]
  refine List.foldl_ext _ _ 0 fun m c _ => ?_
  rw [Nat.mul_comm, Text.digitValue]

theorem digitsValue_toDigits (n : Nat) : Numeral.digitsValue (Nat.toDigits 10 n) = n := by
  rw [digitsValue_eq, Nat.ofDigitChars_ten_toDigits]

theorem someDigits_append {skipping : Bool} (hne : cs ≠ []) (hdigits : ∀ c ∈ cs, c.isDigit = true)
    (hrest : ∀ c ∈ rest.head?, c.isDigit = false) :
    someDigits skipping (cs ++ rest) = .ok (cs, rest) := by
  rw [someDigits, List.span_eq_takeWhile_dropWhile, Text.takeWhile_isDigit_append hdigits hrest,
    Text.dropWhile_isDigit_append hdigits hrest]
  cases cs with
  | nil => exact absurd rfl hne
  | cons c cs => rfl

theorem wholePart_toDigits (n : Nat) (hrest : ∀ c ∈ rest.head?, c.isDigit = false) :
    wholePart false (Nat.toDigits 10 n ++ rest) = .ok (Nat.toDigits 10 n, rest) := by
  rw [wholePart, someDigits_append Nat.toDigits_ne_nil (fun c => Text.isDigit_of_mem_toDigits) hrest]
  split
  · next heq =>
    -- a zero before other digits is not written
    rw [Except.ok.injEq, Prod.mk.injEq] at heq
    by_cases hn : n = 0
    · subst hn
      cases heq.1
    · exact absurd (by rw [heq.1]; rfl) (Text.head?_toDigits_ne hn)
  · rfl

theorem fractionPart_of_endsNumber {skipping : Bool} (hrest : EndsNumber rest) :
    fractionPart skipping rest = .ok ([], rest) := by
  unfold fractionPart
  split
  · exact absurd rfl (hrest '.' rfl).2.1
  · rfl

theorem exponentPart_of_endsNumber {skipping : Bool} (hrest : EndsNumber rest) :
    exponentPart skipping rest = .ok (none, rest) := by
  cases rest with
  | nil => rfl
  | cons c rest =>
    obtain ⟨-, -, he, hE⟩ := hrest c rfl
    unfold exponentPart
    simp only [he, hE, decide_false, Bool.or_self, Bool.false_eq_true, if_false]

/-- The digits of a number are the whole number, up to where it ends. -/
theorem numeral_intChars (n : Int) (hrest : EndsNumber rest) :
    numeral false (intChars n ++ rest) =
      .ok ({ negative := decide (n < 0), whole := Nat.toDigits 10 n.natAbs }, rest) := by
  have hwhole := wholePart_toDigits n.natAbs fun c hc => (hrest c hc).1
  unfold numeral
  split
  next negative body heq =>
  have hsign : negative = decide (n < 0) ∧ body = Nat.toDigits 10 n.natAbs ++ rest := by
    by_cases hneg : n < 0
    · rw [intChars, if_pos hneg] at heq
      cases heq
      exact ⟨(decide_eq_true hneg).symm, rfl⟩
    · rw [intChars, if_neg hneg] at heq
      split at heq
      · next heq' =>
        exact absurd heq' (Text.append_ne_cons_of_isDigit Nat.toDigits_ne_nil
          (fun c => Text.isDigit_of_mem_toDigits) (by decide))
      · cases heq
        exact ⟨(decide_eq_false hneg).symm, rfl⟩
  obtain ⟨rfl, rfl⟩ := hsign
  simp only [hwhole, fractionPart_of_endsNumber hrest, exponentPart_of_endsNumber hrest]
  rfl

/-! ### Numbers that are not too large -/

/-- Rounding at most doubles a number. -/
theorem nearest_le (n : Nat) : Text.nearest n ≤ 2 * n := by
  have hdigits : n / Nat.pow 2 (n.log2 + 1 - 53) * Nat.pow 2 (n.log2 + 1 - 53) ≤ n :=
    Nat.div_mul_le_self _ _
  have hunit : n ≠ 0 → Nat.pow 2 (n.log2 + 1 - 53) ≤ n := fun hn =>
    Nat.le_trans (Nat.pow_le_pow_right (by decide) (by omega)) (Nat.log2_self_le hn)
  unfold Text.nearest
  dsimp only
  split
  · by_cases hn : n = 0
    · subst hn
      simp_all
    · rw [Nat.add_mul]
      have := hunit hn
      omega
  · omega

theorem gather_eq {value : Nat} (hdigits : ∀ c ∈ cs, c.isDigit = true)
    (h : Nat.ofDigitChars 10 cs value < Nat.pow 2 64) :
    Numeral.gather value cs = (Nat.ofDigitChars 10 cs value, []) := by
  induction cs generalizing value with
  | nil => rfl
  | cons c cs ih =>
    rw [Nat.ofDigitChars_cons, Nat.mul_comm] at h ⊢
    have hnext : value * 10 + Text.digitValue c < Nat.pow 2 64 :=
      Nat.lt_of_le_of_lt (Text.le_ofDigitChars cs _) h
    simp only [Numeral.gather, hnext, if_true]
    exact ih (fun d hd => hdigits d (List.mem_cons_of_mem _ hd)) h

theorem isTooLarge_toDigits {negative : Bool} (h : n < Nat.pow 2 64) :
    Numeral.isTooLarge { negative, whole := Nat.toDigits 10 n } = false := by
  have hvalue : Nat.ofDigitChars 10 (Nat.toDigits 10 n) 0 = n := Nat.ofDigitChars_ten_toDigits
  have hgather := gather_eq (fun c => Text.isDigit_of_mem_toDigits) (hvalue.symm ▸ h)
  have hbound : Text.nearest n * Text.nearest 1 < Text.overflowBound := by
    have hlarge : 2 * Nat.pow 2 64 < Text.overflowBound := by decide +kernel
    have hnearest := nearest_le n
    rw [show Text.nearest 1 = 1 by decide, Nat.mul_one]
    omega
  rw [hvalue] at hgather
  simp only [Numeral.isTooLarge, hgather, Numeral.gather, Numeral.writtenExponent, List.length_nil]
  split
  · rfl
  · simpa using hbound

theorem int?_toDigits {n : Int} (h : InRange n) :
    Numeral.int? { negative := decide (n < 0), whole := Nat.toDigits 10 n.natAbs } = some n := by
  obtain ⟨hmin, hmax⟩ := h
  unfold Numeral.int?
  simp only [digitsValue_toDigits, List.isEmpty_nil, Bool.not_true, Option.isSome_none,
    Bool.or_self, Bool.false_eq_true, if_false, decide_eq_true_eq]
  by_cases hneg : n < 0
  · have habs : (n.natAbs : Int) = -n := by omega
    have hzero : ¬(-n = 0) := by omega
    rw [if_pos hneg, habs, Int.neg_neg, decide_eq_false hzero, decide_eq_false (Int.not_lt.2 hmin)]
    rfl
  · have habs : (n.natAbs : Int) = n := by omega
    rw [if_neg hneg, habs, if_neg (Int.not_lt.2 hmax)]

/-- **An integer is read back** from its digits. -/
theorem number_intChars {n : Int} (h : InRange n) (hrest : EndsNumber rest) :
    number (intChars n ++ rest) = .ok (some n, rest) := by
  have hbound : n.natAbs < Nat.pow 2 64 := by
    have hmin : Numeral.minInt = -9223372036854775808 := by decide
    have hmax : Numeral.maxInt = 18446744073709551615 := by decide
    have hpow : Nat.pow 2 64 = 18446744073709551616 := by decide
    rw [InRange, hmin, hmax] at h
    omega
  simp only [number, numeral_intChars n hrest, isTooLarge_toDigits hbound, int?_toDigits h,
    Bool.false_eq_true, if_false]

/-- Only integers in range are read. -/
theorem inRange_of_int? {m : Numeral} {n : Int} (h : m.int? = some n) : InRange n := by
  have hmin : Numeral.minInt = -9223372036854775808 := by decide
  have hmax : Numeral.maxInt = 18446744073709551615 := by decide
  unfold Numeral.int? at h
  rw [InRange]
  split at h
  · cases h
  · dsimp only at h
    split at h
    · split at h
      · cases h
      · next hrange =>
        cases h
        simp only [Bool.or_eq_true, decide_eq_true_eq, not_or] at hrange
        omega
    · split at h
      · cases h
      · cases h
        omega

end Parley.Value
