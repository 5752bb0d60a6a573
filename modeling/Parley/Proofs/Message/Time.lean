import Mathlib.Data.List.Basic
import Mathlib.Data.List.TakeDrop
import Parley.Message.Timestamp
import Parley.Proofs.Text.Numeral

/-!
# Points in time read back

What is written of a point in time is read as this point (`parse?_render`): every number in it has
enough digits, and its zeros in front do not count. No other text is read as something that is no
point in time (`isValid_of_parse?`).
-/

set_option autoImplicit false

namespace Parley.Timestamp

variable {cs rest : List Char} {most width n : Nat}

/-! ## Numbers -/

theorem isBlank_of_isDigit {c : Char} (h : c.isDigit = true) : Text.isBlank c = false := by
  simp only [Char.isDigit, Bool.and_eq_true, decide_eq_true_eq, UInt32.le_iff_toNat_le] at h
  have hlow : 48 ≤ c.toNat := h.1
  have hhigh : c.toNat ≤ 57 := h.2
  simp only [Text.isBlank, Bool.or_eq_false_iff, Bool.and_eq_false_iff, decide_eq_false_iff_not,
    beq_eq_false_iff_ne]
  omega

theorem trimStartChars_cons {c : Char} (h : Text.isBlank c = false) :
    Text.trimStartChars (c :: cs) = c :: cs := by
  rw [Text.trimStartChars, List.dropWhile_cons_of_neg (by simp [h])]

/-- Digits are read up to what is none. -/
theorem number?_append (hne : cs ≠ []) (hdigits : ∀ c ∈ cs, c.isDigit = true)
    (hmost : cs.length ≤ most) (hrest : ∀ c ∈ rest.head?, c.isDigit = false) :
    number? most (cs ++ rest) = some (Nat.ofDigitChars 10 cs 0, rest) := by
  have htake : ((cs ++ rest).takeWhile Char.isDigit).take most = cs := by
    rw [Text.takeWhile_isDigit_append hdigits hrest, List.take_of_length_le hmost]
  have hempty : cs.isEmpty = false := by simpa using hne
  rw [number?, htake, hempty, if_neg Bool.false_ne_true, List.drop_left, Nat.ofDigitChars_eq_foldl]
  simp only [Nat.mul_comm, Text.digitValue]

theorem isDigit_of_mem_padded {c : Char} (h : c ∈ padded width n) : c.isDigit = true := by
  rcases List.mem_append.1 h with h | h
  · rw [List.eq_of_mem_replicate h]
    rfl
  · exact Text.isDigit_of_mem_toDigits h

theorem padded_ne_nil : padded width n ≠ [] :=
  List.append_ne_nil_of_right_ne_nil _ Nat.toDigits_ne_nil

theorem length_padded_le (hpos : 0 < most) (hwidth : width ≤ most) (hn : n < Nat.pow 10 most) :
    (padded width n).length ≤ most := by
  have hlength := (Nat.length_toDigits_le_iff (by decide) hpos).2 hn
  rw [padded, List.length_append, List.length_replicate]
  omega

/-- Zeros in front do not count. -/
theorem ofDigitChars_padded (width n : Nat) : Nat.ofDigitChars 10 (padded width n) 0 = n := by
  rw [padded, Nat.ofDigitChars_append, Nat.ofDigitChars_replicate_zero, Nat.mul_zero,
    Nat.ofDigitChars_ten_toDigits]

theorem number?_padded (hmost : (padded width n).length ≤ most)
    (hrest : ∀ c ∈ rest.head?, c.isDigit = false) :
    number? most (padded width n ++ rest) = some (n, rest) := by
  rw [number?_append padded_ne_nil (fun c => isDigit_of_mem_padded) hmost hrest,
    ofDigitChars_padded]

theorem trimStartChars_padded (width n : Nat) (rest : List Char) :
    Text.trimStartChars (padded width n ++ rest) = padded width n ++ rest := by
  cases hpadded : padded width n with
  | nil => exact absurd hpadded padded_ne_nil
  | cons c cs =>
    have hc : c.isDigit = true := isDigit_of_mem_padded (hpadded ▸ List.mem_cons_self)
    exact trimStartChars_cons (isBlank_of_isDigit hc)

theorem padded_append_ne_cons {c : Char} {ds : List Char} (h : c.isDigit = false) :
    padded width n ++ rest ≠ c :: ds :=
  Text.append_ne_cons_of_isDigit padded_ne_nil (fun _ => isDigit_of_mem_padded) h

/-! ## The parts of a point in time -/

/-- A number below a hundred has two digits. -/
theorem field?_padded (hn : n < 100) (hrest : ∀ c ∈ rest.head?, c.isDigit = false) :
    field? 2 (padded 2 n ++ rest) = some (n, rest) := by
  rw [field?, trimStartChars_padded,
    number?_padded (length_padded_le (by decide) (Nat.le_refl 2) hn) hrest]

theorem separator?_cons {c : Char} (h : Text.isBlank c = false) :
    separator? c (c :: cs) = some cs := by
  rw [separator?, trimStartChars_cons h]
  exact if_pos rfl

theorem year?_yearChars (year : Int) (hrest : ∀ c ∈ rest.head?, c.isDigit = false) :
    year? (yearChars year ++ rest) = some (year, rest) := by
  -- after a sign any number of digits will do
  have hsigned : number? (padded 4 year.natAbs ++ rest).length (padded 4 year.natAbs ++ rest) =
      some (year.natAbs, rest) :=
    number?_padded (by rw [List.length_append]; exact Nat.le_add_right _ _) hrest
  unfold yearChars
  split
  · next hneg =>
    have hyear : -(year.natAbs : Int) = year := by omega
    rw [List.cons_append, year?, trimStartChars_cons (by decide)]
    simp only [hsigned, Option.map_some, hyear]
  split
  · next hneg hle =>
    have hyear : (year.natAbs : Int) = year := by omega
    have hfour : year.natAbs < 10000 := by omega
    have hnumber : number? 4 (padded 4 year.natAbs ++ rest) = some (year.natAbs, rest) :=
      number?_padded (length_padded_le (by decide) (Nat.le_refl 4) hfour) hrest
    rw [year?, trimStartChars_padded]
    split
    · next heq => exact absurd heq (padded_append_ne_cons (by decide))
    · next heq => exact absurd heq (padded_append_ne_cons (by decide))
    · simp only [hnumber, Option.map_some, hyear]
  · next hneg hle =>
    have hyear : (year.natAbs : Int) = year := by omega
    rw [List.cons_append, year?, trimStartChars_cons (by decide)]
    simp only [hsigned, Option.map_some, hyear]

/-- Digits after the point stand for parts of a second. -/
theorem fraction?_padded (hwidth : 0 < width) (hle : width ≤ 9) (hn : n < Nat.pow 10 width) :
    fraction? ('.' :: (padded width n ++ 'Z' :: rest)) =
      some (n * Nat.pow 10 (9 - width), 'Z' :: rest) := by
  have hrest : ∀ c ∈ ('Z' :: rest).head?, c.isDigit = false := by
    rintro c ⟨⟩
    rfl
  have hlength : (padded width n).length = width := by
    have hdigits := (Nat.length_toDigits_le_iff (by decide) hwidth).2 hn
    rw [padded, List.length_append, List.length_replicate]
    omega
  have htake : (padded width n ++ 'Z' :: rest).takeWhile Char.isDigit = padded width n :=
    Text.takeWhile_isDigit_append (fun c => isDigit_of_mem_padded) hrest
  simp only [fraction?, number?_padded (hlength ▸ hle) hrest, htake, hlength, List.drop_left',
    Option.map_some, Nat.min_eq_right hle]

theorem fraction?_fractionChars {nanos : Nat} (h : nanos < 1000000000) :
    fraction? (fractionChars nanos ++ 'Z' :: rest) = some (nanos, 'Z' :: rest) := by
  unfold fractionChars
  split
  · next hzero =>
    subst hzero
    rfl
  split
  · next hmillis =>
    have hvalue : nanos / 1000000 * Nat.pow 10 (9 - 3) = nanos :=
      Nat.div_mul_cancel (Nat.dvd_of_mod_eq_zero hmillis)
    have hthree : nanos / 1000000 < 1000 := by omega
    rw [List.cons_append, fraction?_padded (by decide) (by decide) hthree, hvalue]
  split
  · next hmicros =>
    have hvalue : nanos / 1000 * Nat.pow 10 (9 - 6) = nanos :=
      Nat.div_mul_cancel (Nat.dvd_of_mod_eq_zero hmicros)
    have hsix : nanos / 1000 < 1000000 := by omega
    rw [List.cons_append, fraction?_padded (by decide) (by decide) hsix, hvalue]
  · rw [List.cons_append, fraction?_padded (by decide) (by decide) h]
    exact congrArg some (Prod.ext (Nat.mul_one nanos) rfl)

/-- No offset from UTC makes no difference. -/
theorem earlier_zero {t : Timestamp} (hhour : t.hour ≤ 23) (hminute : t.minute ≤ 59) :
    t.earlier 0 = t := by
  obtain ⟨year, month, day, hour, minute, second, nanos⟩ := t
  have hneg : ¬((hour : Int) * 60 + minute - 0 < 0) := by omega
  have hday : ¬(1440 ≤ (hour : Int) * 60 + minute - 0) := by dsimp only at hhour hminute; omega
  simp only [earlier, hneg, hday, if_false, Timestamp.mk.injEq, true_and, and_true]
  dsimp only at hhour hminute
  omega

/-! ## The whole -/

theorem bind_of_eq_some {α β : Type} {x : Option α} {a : α} {f : α → Option β} {b : β}
    (hx : x = some a) (hf : f a = some b) : x >>= f = some b := by
  rw [hx]
  exact hf

theorem daysIn_le (year : Int) (month : Nat) : daysIn year month ≤ 31 := by
  unfold daysIn
  repeat' split
  all_goals decide

theorem ofChars?_chars {t : Timestamp} (h : t.isValid = true) : ofChars? t.chars = some t := by
  have hvalid := h
  simp only [isValid, Bool.and_eq_true, decide_eq_true_eq] at hvalid
  obtain ⟨⟨⟨⟨⟨⟨⟨⟨⟨-, -⟩, -⟩, hmonth⟩, -⟩, hday⟩, hhour⟩, hminute⟩, hsecond⟩, hnanos⟩ := hvalid
  have hends : ∀ {c : Char} (ds : List Char), c.isDigit = false →
      ∀ d ∈ (c :: ds).head?, d.isDigit = false := by
    rintro c ds hc d ⟨⟩
    exact hc
  have hseconds : ∀ c ∈ (fractionChars t.nanos ++ ['Z']).head?, c.isDigit = false := by
    unfold fractionChars
    split
    · exact hends _ rfl
    split
    · exact hends _ rfl
    split <;> exact hends _ rfl
  have hdays := daysIn_le t.year t.month
  have hyear : ∀ ds, year? (yearChars t.year ++ '-' :: ds) = some (t.year, '-' :: ds) :=
    fun ds => year?_yearChars t.year (hends ds rfl)
  have hmonth : ∀ ds, field? 2 (padded 2 t.month ++ '-' :: ds) = some (t.month, '-' :: ds) :=
    fun ds => field?_padded (by omega) (hends ds rfl)
  have hday : ∀ ds, field? 2 (padded 2 t.day ++ 'T' :: ds) = some (t.day, 'T' :: ds) :=
    fun ds => field?_padded (by omega) (hends ds rfl)
  have hhour' : ∀ ds, field? 2 (padded 2 t.hour ++ ':' :: ds) = some (t.hour, ':' :: ds) :=
    fun ds => field?_padded (by omega) (hends ds rfl)
  have hminute' : ∀ ds, field? 2 (padded 2 t.minute ++ ':' :: ds) = some (t.minute, ':' :: ds) :=
    fun ds => field?_padded (by omega) (hends ds rfl)
  have hsecond : field? 2 (padded 2 t.second ++ (fractionChars t.nanos ++ ['Z'])) =
      some (t.second, fractionChars t.nanos ++ ['Z']) := field?_padded (by omega) hseconds
  have hhyphen : ∀ ds, separator? '-' ('-' :: ds) = some ds := fun _ => separator?_cons (by decide)
  have hcolon : ∀ ds, separator? ':' (':' :: ds) = some ds := fun _ => separator?_cons (by decide)
  have hoffset : offset? (Text.trimStartChars ['Z']) = some (0, []) := rfl
  have hthere : t.earlier 0 = t := earlier_zero hhour hminute
  simp only [chars, List.append_assoc, List.cons_append]
  refine bind_of_eq_some (hyear _) (bind_of_eq_some (hhyphen _) ?_)
  refine bind_of_eq_some (hmonth _) (bind_of_eq_some (hhyphen _) ?_)
  refine bind_of_eq_some (hday _) (bind_of_eq_some rfl ?_)
  refine bind_of_eq_some (hhour' _) (bind_of_eq_some (hcolon _) ?_)
  refine bind_of_eq_some (hminute' _) (bind_of_eq_some (hcolon _) ?_)
  refine bind_of_eq_some hsecond (bind_of_eq_some (fraction?_fractionChars hnanos) ?_)
  refine bind_of_eq_some hoffset ?_
  dsimp only
  rw [hthere, h]
  rfl

/-- **A point in time is read back.** -/
theorem parse?_render {t : Timestamp} (h : t.isValid = true) : parse? t.render = some t := by
  rw [parse?, render, String.toList_ofList, ofChars?_chars h]

/-- **Only points in time are read.** -/
theorem isValid_of_parse? {s : String} {t : Timestamp} (h : parse? s = some t) :
    t.isValid = true := by
  obtain ⟨⟨year, cs⟩, -, h⟩ := Option.bind_eq_some_iff.1 h
  obtain ⟨cs, -, h⟩ := Option.bind_eq_some_iff.1 h
  obtain ⟨⟨month, cs⟩, -, h⟩ := Option.bind_eq_some_iff.1 h
  obtain ⟨cs, -, h⟩ := Option.bind_eq_some_iff.1 h
  obtain ⟨⟨day, cs⟩, -, h⟩ := Option.bind_eq_some_iff.1 h
  dsimp only at h
  -- between date and time stands a letter or a blank
  split at h
  case h_4 => cases h
  all_goals
    obtain ⟨cs, -, h⟩ := Option.bind_eq_some_iff.1 h
    obtain ⟨⟨hour, cs⟩, -, h⟩ := Option.bind_eq_some_iff.1 h
    obtain ⟨cs, -, h⟩ := Option.bind_eq_some_iff.1 h
    obtain ⟨⟨minute, cs⟩, -, h⟩ := Option.bind_eq_some_iff.1 h
    obtain ⟨cs, -, h⟩ := Option.bind_eq_some_iff.1 h
    obtain ⟨⟨second, cs⟩, -, h⟩ := Option.bind_eq_some_iff.1 h
    obtain ⟨⟨nanos, cs⟩, -, h⟩ := Option.bind_eq_some_iff.1 h
    obtain ⟨⟨offset, cs⟩, -, h⟩ := Option.bind_eq_some_iff.1 h
    dsimp only at h
    split at h
    · next hvalid =>
      cases h
      exact (Bool.and_eq_true_iff.1 hvalid).2
    · cases h

end Parley.Timestamp
