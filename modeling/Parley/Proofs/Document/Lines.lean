import Parley.Document.Reader
import Parley.Proofs.Document.Quoted
import Parley.Proofs.Document.Scalar

/-!
# Written lines read back

A document of entries with bare keys, one on each line, is read as the table of these entries
(`WrittenLines.read?_eq`), if every value stands for what it is meant to (`Denotes`).
-/

set_option autoImplicit false

namespace Parley.Document

/-! ## Values -/

/-- `written` is read as the value `v` where the line ends behind it. -/
structure Denotes (written : List Char) (v : Node) : Prop where
  head : ∃ c cs, written = c :: cs ∧ isSpace c = false
  reads : ∀ rest, readNode? (written ++ '\n' :: rest) = some (v, '\n' :: rest)

theorem exists_quoteChars_eq (cs : List Char) :
    ∃ q ds, quoteChars cs = q :: ds ∧ (q = '"' ∨ q = '\'') := by
  refine ⟨(quoting cs).mark, (quoteChars cs).tail, ?_, ?_⟩
  · unfold quoteChars
    cases quoting cs <;> rfl
  · cases quoting cs
    all_goals first | exact .inl rfl | exact .inr rfl

/-- A written text as a value. -/
theorem node?_quoteChars (fuel depth : Nat) (cs : List Char) {c : Char}
    (hc : c ≠ '"' ∧ c ≠ '\'') (rest : List Char) :
    node? (fuel + 1) depth (quoteChars cs ++ c :: rest) =
      some (.text (String.ofList cs), c :: rest) := by
  have hrest : (c :: rest).head? ≠ some '"' ∧ (c :: rest).head? ≠ some '\'' := by simpa using hc
  have hread := readText?_quoteChars cs hrest
  obtain ⟨q, ds, hq, hmark⟩ := exists_quoteChars_eq cs
  rw [hq, List.cons_append] at hread ⊢
  unfold node?
  rcases hmark with rfl | rfl <;> simp [hread]

theorem denotes_quoteChars (cs : List Char) : Denotes (quoteChars cs) (.text (String.ofList cs)) where
  head := by
    obtain ⟨q, ds, hq, hmark⟩ := exists_quoteChars_eq cs
    exact ⟨q, ds, hq, by rcases hmark with rfl | rfl <;> rfl⟩
  reads rest := node?_quoteChars _ maxDepth cs (c := '\n') (by decide) rest

/-- A value without quotes. -/
theorem denotes_scalar {c : Char} {run : List Char}
    (hrun : (c :: run).all (!endsScalar ·) = true) (hquote : c ≠ '"' ∧ c ≠ '\'') {v : Node}
    (h : scalar? (c :: run) = some v) :
    Denotes (c :: run) v := by
  have hc : endsScalar c = false := by
    simpa using List.all_eq_true.mp hrun c List.mem_cons_self
  refine ⟨⟨c, run, rfl, ?_⟩, fun rest => ?_⟩
  · simp only [endsScalar, List.mem_cons, List.not_mem_nil, or_false, not_or,
      decide_eq_false_iff_not] at hc
    simp [isSpace, hc]
  · have htext : readText? (c :: (run ++ '\n' :: rest)) = none := by
      unfold readText?
      split <;> simp_all
    have hread := readScalar?_lineEnd hrun h rest
    rw [List.cons_append] at hread ⊢
    rw [readNode?]
    unfold node?
    split
    · next heq => rw [(List.cons.inj heq).1] at hc; cases hc
    · next heq => rw [(List.cons.inj heq).1] at hc; cases hc
    · rw [htext]
      exact hread

theorem denotes_toDigits {n : Nat} (h : (n : Int) ≤ maxInt) :
    Denotes (Nat.toDigits 10 n) (.int n) := by
  have hscalar := scalar?_toDigits h
  have hdigits : ∀ c ∈ Nat.toDigits 10 n, c.isDigit = true :=
    fun c => Text.isDigit_of_mem_toDigits
  cases heq : Nat.toDigits 10 n with
  | nil => exact absurd heq Nat.toDigits_ne_nil
  | cons c run =>
    rw [heq] at hscalar hdigits
    refine denotes_scalar (List.all_eq_true.mpr fun d hd => ?_) ?_ hscalar
    · have hdigit := hdigits d hd
      rw [endsScalar, Bool.not_eq_true', decide_eq_false_iff_not]
      intro hmem
      have hall : [' ', '\t', '\n', '\r', ',', '=', '[', ']', '\x7b', '\x7d', '#'].all
          (!Char.isDigit ·) = true := rfl
      have hno := List.all_eq_true.mp hall d hmem
      rw [hdigit] at hno
      cases hno
    · have hdigit := hdigits c List.mem_cons_self
      exact ⟨fun hc => absurd (hc ▸ hdigit) (by decide), fun hc => absurd (hc ▸ hdigit) (by decide)⟩

theorem denotes_true : Denotes ['t', 'r', 'u', 'e'] (.bool true) :=
  denotes_scalar rfl (by decide) rfl

theorem denotes_false : Denotes ['f', 'a', 'l', 's', 'e'] (.bool false) :=
  denotes_scalar rfl (by decide) rfl

/-! ## Lists of texts -/

/-- Nothing is left out before a character that is neither blank nor the start of a comment. -/
theorem skipGap_cons {c : Char} (hc : isSpace c = false) (hother : c ∉ ['\n', '\r', '#'])
    (cs : List Char) : skipGap false (c :: cs) = c :: cs := by
  simp only [List.mem_cons, List.not_mem_nil, or_false, not_or] at hother
  unfold skipGap
  split <;> simp_all

theorem skipGap_quoteChars (cs rest : List Char) :
    skipGap false (quoteChars cs ++ rest) = quoteChars cs ++ rest := by
  obtain ⟨q, ds, hq, hmark⟩ := exists_quoteChars_eq cs
  rw [hq]
  rcases hmark with rfl | rfl <;> exact skipGap_cons rfl (by decide) _

/-- An item that closes the list. -/
theorem items?_last (fuel depth : Nat) (cs rest : List Char) :
    items? (fuel + 2) depth (quoteChars cs ++ ']' :: rest) =
      some ([.text (String.ofList cs)], rest) := by
  have hnode := node?_quoteChars fuel depth cs (c := ']') (by decide) rest
  obtain ⟨q, ds, hq, hmark⟩ := exists_quoteChars_eq cs
  rw [hq, List.cons_append] at hnode ⊢
  unfold items?
  rcases hmark with rfl | rfl <;> simp [hnode, skipGap_cons (c := ']') rfl (by decide)]

/-- An item with a comma behind it. -/
theorem items?_comma {fuel depth : Nat} (cs : List Char) {rest rest' : List Char}
    {items : List Node} (h : items? (fuel + 1) depth (skipGap false rest) = some (items, rest')) :
    items? (fuel + 2) depth (quoteChars cs ++ ',' :: rest) =
      some (.text (String.ofList cs) :: items, rest') := by
  have hnode := node?_quoteChars fuel depth cs (c := ',') (by decide) rest
  obtain ⟨q, ds, hq, hmark⟩ := exists_quoteChars_eq cs
  rw [hq, List.cons_append] at hnode ⊢
  unfold items?
  rcases hmark with rfl | rfl <;> simp [hnode, skipGap_cons (c := ',') rfl (by decide), h]

/-- A list is read from its opening bracket on. -/
theorem denotes_list (body : List Char) {items : List Node}
    (h : ∀ fuel rest, body.length < fuel →
      items? fuel (maxDepth - 1) (skipGap false (body ++ rest)) = some (items, rest)) :
    Denotes ('[' :: body) (.list false items) where
  head := ⟨'[', body, rfl, rfl⟩
  reads rest := by
    have hread := h (2 * ('[' :: body ++ '\n' :: rest).length + 1) ('\n' :: rest) (by simp; omega)
    rw [List.cons_append] at hread ⊢
    rw [readNode?, node?, if_neg (by decide), hread]
    rfl

/-! ## Lines -/

/-- A key that needs no quotes. -/
def IsBareKey (key : String) : Prop := key ≠ "" ∧ key.toList.all isBare = true

instance (key : String) : Decidable (IsBareKey key) := inferInstanceAs (Decidable (_ ∧ _))

/-- An entry on a line of its own. -/
def entryChars (key : String) (written : List Char) : List Char :=
  key.toList ++ [' ', '=', ' '] ++ written ++ ['\n']

section
variable {key : String} (hkey : IsBareKey key)
include hkey

/-- A bare key is read up to the blank behind it. -/
theorem readKey?_bare (rest : List Char) :
    readKey? (key.toList ++ ' ' :: '=' :: rest) = some (⟨[], key⟩, '=' :: rest) := by
  have hspan : (key.toList ++ ' ' :: '=' :: rest).span isBare = (key.toList, ' ' :: '=' :: rest) := by
    have hall := List.all_eq_true.mp hkey.2
    rw [List.span_eq_takeWhile_dropWhile, List.takeWhile_append_of_pos hall,
      List.dropWhile_append_of_pos hall]
    simp [show isBare ' ' = false by decide]
  have hname : name? (key.toList ++ ' ' :: '=' :: rest) = some (key, ' ' :: '=' :: rest) := by
    cases hcs : key.toList with
    | nil => exact absurd (String.toList_eq_nil_iff.mp hcs) hkey.1
    | cons c cs =>
      have hc : isBare c = true := List.all_eq_true.mp hkey.2 c (hcs ▸ List.mem_cons_self)
      rw [hcs, List.cons_append] at hspan
      rw [List.cons_append]
      unfold name?
      split
      · next heq => exact absurd ((List.cons.inj heq).1 ▸ hc) (by decide)
      · next heq => exact absurd ((List.cons.inj heq).1 ▸ hc) (by decide)
      · simp only [hspan]
        rw [← hcs, String.ofList_toList]
  rw [readKey?, maxDepth, keyPath?, hname]
  rfl

theorem exists_entryChars_eq (written rest : List Char) :
    ∃ c cs, entryChars key written ++ rest = c :: cs ∧ isBare c = true := by
  cases hcs : key.toList with
  | nil => exact absurd (String.toList_eq_nil_iff.mp hcs) hkey.1
  | cons c cs =>
    rw [entryChars, hcs]
    exact ⟨c, _, rfl, List.all_eq_true.mp hkey.2 c (hcs ▸ List.mem_cons_self)⟩

/-- A line with an entry is read up to its end. -/
theorem line?_entryChars {written : List Char} {v : Node} (h : Denotes written v)
    (rest : List Char) :
    line? (entryChars key written ++ rest) = some (.entry ⟨⟨[], key⟩, v⟩, rest) := by
  have hline : entryChars key written ++ rest =
      key.toList ++ ' ' :: '=' :: ' ' :: (written ++ '\n' :: rest) := by
    simp [entryChars]
  have hvalue : skipSpace (' ' :: (written ++ '\n' :: rest)) = written ++ '\n' :: rest := by
    obtain ⟨c, cs, rfl, hc⟩ := h.head
    rw [skipSpace, List.cons_append, List.dropWhile_cons_of_pos rfl,
      List.dropWhile_cons_of_neg (by simp [hc])]
  have hentry : entry? (entryChars key written ++ rest) =
      some (.entry ⟨⟨[], key⟩, v⟩, '\n' :: rest) := by
    rw [hline, entry?, readKey?_bare hkey]
    simp only [hvalue, h.reads, Option.map_some]
  -- the key begins with none of the characters that begin other lines
  obtain ⟨c, cs, hcs, hc⟩ := exists_entryChars_eq hkey written rest
  have hother : ∀ d ∈ [' ', '\t', '#', '[', '\n', '\r'], c ≠ d := by
    rintro d hd rfl
    have hall : [' ', '\t', '#', '[', '\n', '\r'].all (!isBare ·) = true := rfl
    have hno := List.all_eq_true.mp hall c hd
    rw [hc] at hno
    cases hno
  simp only [List.mem_cons, List.not_mem_nil, or_false, forall_eq_or_imp, forall_eq] at hother
  obtain ⟨hblank, htab, hcomment, hbracket, hend, hreturn⟩ := hother
  have hspace : skipSpace (c :: cs) = c :: cs :=
    List.dropWhile_cons_of_neg (by simp [isSpace, hblank, htab])
  have hnext : nextLine? (c :: cs) = none := by
    rw [nextLine?, hspace]
    simp [skipComment, lineBreak?, hcomment, hend, hreturn]
  rw [hcs] at hentry ⊢
  rw [line?, hnext, hspace]
  simp [hbracket, hentry, nextLine?, skipSpace, skipComment, lineBreak?, isSpace]

end

/-! ## Documents -/

/-- A document of entries, each with a bare key and on a line of its own. -/
inductive WrittenLines : List Char → List Entry → Prop
  | nil : WrittenLines [] []
  | cons {key : String} {written cs : List Char} {v : Node} {es : List Entry}
    (hkey : IsBareKey key) (hv : Denotes written v) (h : WrittenLines cs es) :
    WrittenLines (entryChars key written ++ cs) (⟨⟨[], key⟩, v⟩ :: es)

theorem cut_entries (es : List Entry) : cut (es.map .entry) = (es, []) := by
  induction es with
  | nil => rfl
  | cons e es ih => rw [List.map_cons, cut, ih]

namespace WrittenLines
variable {cs : List Char} {es : List Entry} (h : WrittenLines cs es)
include h

theorem lines?_eq {fuel : Nat} (hfuel : cs.length ≤ fuel) : lines? fuel cs = some (es.map .entry) := by
  induction h generalizing fuel with
  | nil => cases fuel <;> rfl
  | @cons key written cs v es hkey hv h ih =>
    have hlength : (entryChars key written ++ cs).length =
        key.toList.length + written.length + cs.length + 4 := by
      simp [entryChars]
      omega
    obtain ⟨fuel, rfl⟩ : ∃ n, fuel = n + 1 := Nat.exists_eq_succ_of_ne_zero (by omega)
    have hne : entryChars key written ++ cs ≠ [] := List.ne_nil_of_length_pos (by omega)
    rw [lines?]
    · rw [line?_entryChars hkey hv]
      simp only [ih (show cs.length ≤ fuel by omega), Option.map_some, List.map_cons]
    · exact hne

/-- No byte order mark stands before the entries. -/
theorem ne_mark (rest : List Char) : cs ≠ '\ufeff' :: rest := by
  cases h with
  | nil => nofun
  | cons hkey =>
    obtain ⟨c, ds, hcs, hc⟩ := exists_entryChars_eq hkey _ _
    rw [hcs]
    exact fun heq => absurd ((List.cons.inj heq).1 ▸ hc) (by decide)

/-- Every path is one name. -/
theorem tables_eq_nil {e : Entry} (he : e ∈ es) : e.path.tables = [] := by
  induction h with
  | nil => cases he
  | cons _ _ _ ih =>
    cases he with
    | head => rfl
    | tail _ he => exact ih he

end WrittenLines

/-- Entries with names of their own are added one after another. -/
theorem assignAll?_eq {es : List Entry} (hpath : ∀ e ∈ es, e.path.tables = []) (fields : Fields)
    (hnames : (fields.map (·.1) ++ es.map (·.path.name)).Nodup) :
    Fields.assignAll? fields es = some (fields ++ es.map fun e => (e.path.name, e.value)) := by
  induction es generalizing fields with
  | nil => rw [List.map_nil, List.append_nil]; rfl
  | cons e es ih =>
    have hnew : fields.lookup e.path.name = none := by
      rw [List.lookup_eq_none_iff]
      intro field hfield
      have hne := (List.nodup_append.mp hnames).2.2 field.1 (List.mem_map_of_mem hfield)
        e.path.name (by simp)
      simpa using hne.symm
    have hassign : Fields.assign? fields e = some (fields ++ [(e.path.name, e.value)]) := by
      rw [Fields.assign?, hpath e List.mem_cons_self, Fields.descend?]
      simp [Fields.add?, hnew]
    have hrest := ih (fun d hd => hpath d (List.mem_cons_of_mem _ hd))
      (fields ++ [(e.path.name, e.value)]) (by simpa using hnames)
    rw [Fields.assignAll?, List.foldlM_cons, hassign]
    simpa [Fields.assignAll?] using hrest

/-- **A document of entries is read as the table of these entries**, in their order. -/
theorem WrittenLines.read?_eq {cs : List Char} {es : List Entry} (h : WrittenLines cs es)
    (hnames : (es.map (·.path.name)).Nodup) :
    read? (String.ofList cs) = some (es.map fun e => (e.path.name, e.value)) := by
  have hall := assignAll?_eq (fun e => h.tables_eq_nil) [] hnames
  rw [List.nil_append] at hall
  unfold read?
  rw [String.toList_ofList]
  split
  · next rest => exact absurd rfl (h.ne_mark rest)
  · simp [h.lines?_eq (Nat.le_succ _), cut_entries, assemble?, hall]

end Parley.Document
