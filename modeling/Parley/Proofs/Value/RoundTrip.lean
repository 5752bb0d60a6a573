import Parley.Proofs.Value.Scalar

/-!
# Values read back

A well-formed value that does not nest too deep is read from its compact form (`value_chars`). The
induction follows the writer (`chars.induct`): what it writes of a value, of the items left in a list
and of the fields left in an object is read back, whatever comes behind. Every step of the reader
takes a character, so the length of the text is fuel enough.
-/

set_option autoImplicit false

namespace Parley.Value

variable {v : Value} {items : List Value} {fields : Fields} {fuel depth : Nat} {rest : List Char}

/-! ## What stands at the start -/

theorem isSpace_of_startsNumber {c : Char} (h : c = '-' ∨ c.isDigit = true) : isSpace c = false := by
  by_contra hspace
  simp only [isSpace, Bool.not_eq_false, Bool.or_eq_true, beq_iff_eq] at hspace
  rcases hspace with ((rfl | rfl) | rfl) | rfl <;> revert h <;> decide

theorem intChars_eq_cons (n : Int) :
    ∃ c cs, intChars n = c :: cs ∧ (c = '-' ∨ c.isDigit = true) := by
  unfold intChars
  split
  · exact ⟨_, _, rfl, .inl rfl⟩
  · cases hdigits : Nat.toDigits 10 n.natAbs with
    | nil => exact absurd hdigits Nat.toDigits_ne_nil
    | cons d ds =>
      exact ⟨d, ds, rfl, .inr (Text.isDigit_of_mem_toDigits (hdigits ▸ List.mem_cons_self))⟩

/-- A value starts with a character that is no blank and closes no list. -/
theorem chars_eq_cons (v : Value) : ∃ c cs, v.chars = c :: cs ∧ isSpace c = false ∧ c ≠ ']' := by
  cases v with
  | null => exact ⟨_, _, rfl, rfl, by decide⟩
  | bool b => cases b <;> exact ⟨_, _, rfl, rfl, by decide⟩
  | int n =>
    obtain ⟨c, cs, hcs, hc⟩ := intChars_eq_cons n
    refine ⟨c, cs, hcs, isSpace_of_startsNumber hc, ?_⟩
    rintro rfl
    revert hc
    decide
  | text s => exact ⟨_, _, rfl, rfl, by decide⟩
  | list items =>
    cases items with
    | nil => exact ⟨_, _, rfl, rfl, by decide⟩
    | cons v items => exact ⟨_, _, rfl, rfl, by decide⟩
  | object fields =>
    cases fields with
    | nil => exact ⟨_, _, rfl, rfl, by decide⟩
    | cons f fields => exact ⟨_, _, rfl, rfl, by decide⟩

theorem length_chars_pos (v : Value) : 0 < v.chars.length := by
  obtain ⟨c, cs, hcs, -⟩ := chars_eq_cons v
  rw [hcs]
  exact Nat.succ_pos _

theorem length_itemChars_pos (items : List Value) : 0 < (itemChars items).length := by
  cases items <;> exact Nat.succ_pos _

theorem length_fieldChars_pos (fields : Fields) : 0 < (fieldChars fields).length := by
  rcases fields with _ | ⟨⟨k, v⟩, fields⟩ <;> exact Nat.succ_pos _

/-- The comma before an item or a field that is not the first. -/
def comma (first : Bool) : List Char := if first then [] else [',']

theorem nextItem_chars (first : Bool) (v : Value) (rest : List Char) :
    nextItem first (comma first ++ (v.chars ++ rest)) = .ok (some (v.chars ++ rest), []) := by
  obtain ⟨c, cs, hcs, hspace, hclose⟩ := chars_eq_cons v
  rw [hcs, List.cons_append]
  have hskip : skipSpace (c :: (cs ++ rest)) = c :: (cs ++ rest) := skipSpace_cons hspace _
  cases first with
  | true => simp [comma, nextItem, hskip]
  | false =>
    have hcomma : skipSpace (',' :: c :: (cs ++ rest)) = ',' :: c :: (cs ++ rest) := rfl
    simp [comma, nextItem, hskip, hclose, hcomma]

theorem colon_cons (cs : List Char) : colon (':' :: cs) = .ok cs := rfl

theorem nextKey_quote (first : Bool) (rest : List Char) :
    nextKey first (comma first ++ '"' :: rest) = .ok (some rest, []) := by
  cases first <;> rfl

theorem endsNumber_itemChars (items : List Value) (rest : List Char) :
    EndsNumber (itemChars items ++ rest) := by
  intro c hc
  cases items <;> cases hc <;> decide

theorem endsNumber_fieldChars (fields : Fields) (rest : List Char) :
    EndsNumber (fieldChars fields ++ rest) := by
  intro c hc
  rcases fields with _ | ⟨⟨k, v⟩, fields⟩ <;> cases hc <;> decide

/-! ## One step of the reader -/

/-- A digit or a minus starts a number. -/
theorem readValue_of_startsNumber {c : Char} {cs : List Char} (h : c = '-' ∨ c.isDigit = true) :
    readValue false (fuel + 1) depth (c :: cs) =
      (number (c :: cs)).map fun (n, r) => (n.map .int, r) := by
  rw [readValue, skipSpace_cons (isSpace_of_startsNumber h)]
  split
  -- no other value starts like this
  case h_8 d ds _ _ _ _ _ _ heq =>
    cases heq
    have hstart : (decide (c = '-') || c.isDigit) = true := by simpa using h
    rw [if_pos hstart]
    rfl
  all_goals
    next heq =>
      cases heq
      try exact absurd h (by decide)

theorem readValue_int {n : Int} (h : InRange n) (hrest : EndsNumber rest) :
    readValue false (fuel + 1) depth (intChars n ++ rest) = .ok (some (.int n), rest) := by
  have hnumber := number_intChars h hrest
  obtain ⟨c, cs, hcs, hc⟩ := intChars_eq_cons n
  rw [hcs, List.cons_append] at hnumber ⊢
  rw [readValue_of_startsNumber hc, hnumber]
  rfl

theorem readValue_openList (hdepth : 1 < depth) (cs : List Char) :
    readValue false (fuel + 1) depth ('[' :: cs) =
      (readItems false fuel (depth - 1) true cs).map fun (items, r) => (items.map .list, r) := by
  have hdeep : ¬depth ≤ 1 := Nat.not_le.2 hdepth
  rw [readValue, skipSpace_cons rfl]
  simp only [hdeep, decide_false, Bool.and_false, Bool.false_eq_true, if_false]

theorem readValue_openObject (hdepth : 1 < depth) (cs : List Char) :
    readValue false (fuel + 1) depth ('\x7b' :: cs) =
      (readFields false fuel (depth - 1) true [] cs).map fun (fs, r) =>
        ((keptFields? fs).map .object, r) := by
  have hdeep : ¬depth ≤ 1 := Nat.not_le.2 hdepth
  rw [readValue, skipSpace_cons rfl]
  simp only [hdeep, decide_false, Bool.and_false, Bool.false_eq_true, if_false]

theorem readItems_cons (first : Bool)
    (hv : readValue false fuel depth (v.chars ++ (itemChars items ++ rest)) =
      .ok (some v, itemChars items ++ rest))
    (hitems : readItems false fuel depth false (itemChars items ++ rest) = .ok (some items, rest)) :
    readItems false (fuel + 1) depth first
      (comma first ++ (v.chars ++ (itemChars items ++ rest))) = .ok (some (v :: items), rest) := by
  simp only [readItems, nextItem_chars, hv, hitems]
  rfl

theorem readFields_cons (first : Bool) {key : String} {done : List (String × Option Value)}
    {fs : List (String × Option Value)} (hkey : ∀ k ∈ done.map Prod.fst, k < key)
    (hv : readValue false fuel depth (v.chars ++ (fieldChars fields ++ rest)) =
      .ok (some v, fieldChars fields ++ rest))
    (hfields : readFields false fuel depth false (done ++ [(key, some v)])
      (fieldChars fields ++ rest) = .ok (fs, rest)) :
    readFields false (fuel + 1) depth first done
      (comma first ++ (quoteChars key ++ ':' :: (v.chars ++ (fieldChars fields ++ rest)))) =
        .ok (fs, rest) := by
  simp only [readFields, quoteChars_append, nextKey_quote, quotedText_quoteChars, colon_cons, hv,
    Bool.false_eq_true, if_false, Fields.insert_of_forall_lt hkey, hfields]

/-! ## Whole values -/

/-- A value is read back if the fuel lasts for its text. -/
def ReadsBack (v : Value) : Prop :=
  ∀ {fuel depth : Nat} {rest : List Char}, Admitted depth v → v.chars.length ≤ fuel + 1 →
    EndsNumber rest →
    readValue false (fuel + 1) depth (v.chars ++ rest) = .ok (some v, rest)

/-- The items left in a list are read back. -/
def ItemsReadBack (items : List Value) : Prop :=
  ∀ {fuel depth : Nat} {rest : List Char}, (∀ v ∈ items, Admitted depth v) →
    (itemChars items).length ≤ fuel + 1 →
    readItems false (fuel + 1) depth false (itemChars items ++ rest) = .ok (some items, rest)

/-- The fields left in an object are read back, behind those that are read already. -/
def FieldsReadBack (fields : Fields) : Prop :=
  ∀ {fuel depth : Nat} {done : List (String × Option Value)} {rest : List Char},
    (∀ f ∈ fields, Admitted depth f.2) →
    (done.map Prod.fst ++ fields.map Prod.fst).Pairwise (· < ·) →
    (fieldChars fields).length ≤ fuel + 1 →
    readFields false (fuel + 1) depth false done (fieldChars fields ++ rest) =
      .ok (done ++ fields.map kept, rest)

theorem readItems_of_readsBack (hv : ReadsBack v) (hitems : ItemsReadBack items) (first : Bool)
    (hadmitted : ∀ w ∈ v :: items, Admitted depth w)
    (hfuel : v.chars.length + (itemChars items).length ≤ fuel + 2) :
    readItems false (fuel + 2) depth first (comma first ++ (v.chars ++ (itemChars items ++ rest))) =
      .ok (some (v :: items), rest) := by
  obtain ⟨hfirst, hothers⟩ := List.forall_mem_cons.1 hadmitted
  have hpos := length_chars_pos v
  have hpos' := length_itemChars_pos items
  exact readItems_cons first (hv hfirst (by omega) (endsNumber_itemChars items rest))
    (hitems hothers (by omega))

theorem readFields_of_readsBack (hv : ReadsBack v) (hfields : FieldsReadBack fields) (first : Bool)
    {key : String} {done : List (String × Option Value)}
    (hadmitted : ∀ f ∈ (key, v) :: fields, Admitted depth f.2)
    (hsorted : (done.map Prod.fst ++ key :: fields.map Prod.fst).Pairwise (· < ·))
    (hfuel : v.chars.length + (fieldChars fields).length ≤ fuel + 2) :
    readFields false (fuel + 2) depth first done
      (comma first ++ (quoteChars key ++ ':' :: (v.chars ++ (fieldChars fields ++ rest)))) =
        .ok (done ++ kept (key, v) :: fields.map kept, rest) := by
  obtain ⟨hfirst, hothers⟩ := List.forall_mem_cons.1 hadmitted
  have hpos := length_chars_pos v
  have hpos' := length_fieldChars_pos fields
  have hbefore : ∀ k ∈ done.map Prod.fst, k < key := fun k hk =>
    (List.pairwise_append.1 hsorted).2.2 k hk key List.mem_cons_self
  have hrest : readFields false (fuel + 1) depth false (done ++ [(key, some v)])
      (fieldChars fields ++ rest) = .ok (done ++ [(key, some v)] ++ fields.map kept, rest) :=
    hfields hothers (by simpa using hsorted) (by omega)
  rw [List.append_assoc, List.singleton_append] at hrest
  exact readFields_cons first hbefore
    (hv hfirst (by omega) (endsNumber_fieldChars fields rest)) hrest

theorem readsBack_list (hv : ReadsBack v) (hitems : ItemsReadBack items) :
    ReadsBack (.list (v :: items)) := by
  intro fuel depth rest hadmitted hfuel _
  obtain ⟨hdepth, hadmitted⟩ := admitted_list_iff.1 hadmitted
  have hpos := length_chars_pos v
  have hpos' := length_itemChars_pos items
  simp only [chars, List.length_cons, List.length_append, List.cons_append] at hfuel
  obtain ⟨fuel, rfl⟩ : ∃ f, fuel = f + 2 := ⟨fuel - 2, by omega⟩
  have hread : readItems false (fuel + 2) (depth - 1) true
      (comma true ++ (v.chars ++ (itemChars items ++ rest))) = .ok (some (v :: items), rest) :=
    readItems_of_readsBack hv hitems true hadmitted (by omega)
  rw [comma, if_pos rfl, List.nil_append] at hread
  rw [chars, List.cons_append, List.cons_append, List.append_assoc, readValue_openList hdepth, hread]
  rfl

theorem itemsReadBack_cons (hv : ReadsBack v) (hitems : ItemsReadBack items) :
    ItemsReadBack (v :: items) := by
  intro fuel depth rest hadmitted hfuel
  have hpos := length_chars_pos v
  have hpos' := length_itemChars_pos items
  simp only [itemChars, List.length_cons, List.length_append, List.cons_append] at hfuel
  obtain ⟨fuel, rfl⟩ : ∃ f, fuel = f + 1 := ⟨fuel - 1, by omega⟩
  rw [itemChars, List.cons_append, List.cons_append, List.append_assoc]
  exact readItems_of_readsBack hv hitems false hadmitted (by omega)

theorem readsBack_object {key : String} (hv : ReadsBack v) (hfields : FieldsReadBack fields) :
    ReadsBack (.object ((key, v) :: fields)) := by
  intro fuel depth rest hadmitted hfuel _
  obtain ⟨hdepth, hsorted, hadmitted⟩ := admitted_object_iff.1 hadmitted
  have hpos := length_chars_pos v
  have hpos' := length_fieldChars_pos fields
  simp only [chars, List.length_cons, List.length_append, List.cons_append] at hfuel
  obtain ⟨fuel, rfl⟩ : ∃ f, fuel = f + 2 := ⟨fuel - 2, by omega⟩
  have hread : readFields false (fuel + 2) (depth - 1) true []
      (comma true ++ (quoteChars key ++ ':' :: (v.chars ++ (fieldChars fields ++ rest)))) =
        .ok (kept (key, v) :: fields.map kept, rest) :=
    readFields_of_readsBack hv hfields true hadmitted hsorted (by omega)
  rw [comma, if_pos rfl, List.nil_append] at hread
  have htext : chars (.object ((key, v) :: fields)) ++ rest =
      '\x7b' :: (quoteChars key ++ ':' :: (v.chars ++ (fieldChars fields ++ rest))) := by
    simp [chars]
  rw [htext, readValue_openObject hdepth, hread]
  simp only [Except.map, ← List.map_cons, keptFields?_map_kept, Option.map_some]

theorem fieldsReadBack_cons {key : String} (hv : ReadsBack v) (hfields : FieldsReadBack fields) :
    FieldsReadBack ((key, v) :: fields) := by
  intro fuel depth done rest hadmitted hsorted hfuel
  have hpos := length_chars_pos v
  have hpos' := length_fieldChars_pos fields
  simp only [fieldChars, List.length_cons, List.length_append, List.cons_append] at hfuel
  obtain ⟨fuel, rfl⟩ : ∃ f, fuel = f + 1 := ⟨fuel - 1, by omega⟩
  have htext : fieldChars ((key, v) :: fields) ++ rest =
      comma false ++ (quoteChars key ++ ':' :: (v.chars ++ (fieldChars fields ++ rest))) := by
    simp [fieldChars, comma]
  rw [htext]
  exact readFields_of_readsBack hv hfields false hadmitted hsorted (by omega)

theorem readsBack (v : Value) : ReadsBack v := by
  refine chars.induct ReadsBack FieldsReadBack ItemsReadBack ?null ?true ?false ?int ?text
    ?emptyList ?list ?emptyObject ?object ?noItems ?items ?noFields ?fields v
  case null => exact fun _ _ _ => rfl
  case true => exact fun _ _ _ => rfl
  case false => exact fun _ _ _ => rfl
  case int =>
    intro n fuel depth rest hadmitted _ hrest
    cases hadmitted.wellFormed with
    | int range => exact readValue_int range hrest
  case text =>
    intro s fuel depth rest _ _ _
    rw [chars, readValue, skipSpace_quoteChars]
    simp only [quotedText_quoteChars]
    rfl
  case emptyList =>
    intro fuel depth rest hadmitted hfuel _
    obtain ⟨fuel, rfl⟩ : ∃ f, fuel = f + 1 := ⟨fuel - 1, by simp [chars] at hfuel; omega⟩
    exact readValue_openList hadmitted.nesting_lt (']' :: rest)
  case list => exact fun v items => readsBack_list
  case emptyObject =>
    intro fuel depth rest hadmitted hfuel _
    obtain ⟨fuel, rfl⟩ : ∃ f, fuel = f + 1 := ⟨fuel - 1, by simp [chars] at hfuel; omega⟩
    exact readValue_openObject hadmitted.nesting_lt ('\x7d' :: rest)
  case object => exact fun key v fields => readsBack_object
  case noItems => exact fun _ _ => rfl
  case items => exact fun v items => itemsReadBack_cons
  case noFields =>
    intro fuel depth done rest _ _ _
    simp [fieldChars, readFields, nextKey, skipSpace, isSpace]
  case fields => exact fun key v fields => fieldsReadBack_cons

/-- **A value is read back** from its compact form, if it is well formed and does not nest too deep
for the reader. -/
theorem value_chars (h : Admitted depth v) (hrest : EndsNumber rest) :
    value depth (v.chars ++ rest) = .ok (some v, rest) := by
  rw [value]
  exact readsBack v h (by rw [List.length_append]; omega) hrest

end Parley.Value
