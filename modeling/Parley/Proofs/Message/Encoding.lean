import Mathlib.Data.List.Perm.Basic
import Parley.Message.Codec
import Parley.Proofs.Message.ReplyChannel
import Parley.Proofs.Message.Time
import Parley.Proofs.Value.Reading
import Parley.Proofs.Value.RoundTrip

/-!
# Messages survive encoding

A message is read back from the object of its six fields, in whatever order they come
(`decode_fields`), if its values do not nest deeper than the reader allows. Every message that is
read from some text is of this kind (`wellFormed_of_decode`). All numbers are integers of 64 bits:
nothing is said of texts whose data or extra fields hold others, which `decode` refuses.
-/

set_option autoImplicit false

namespace Parley

open Value

variable {m : Message} {d : Message.Draft} {cs rest : List Char}

namespace MessageId

/-- An identifier is read back. -/
theorem parse?_render (i : MessageId) : parse? i.render = some i := by
  have hlength := length_chars i
  rw [parse?, render, String.toList_ofList, ofChars?, if_neg (by omega), if_pos hlength,
    ofGrouped?_chars]

end MessageId

namespace Message

/-! ## Messages and their fields -/

/-- The values of the message are well formed, and it has been sent at a point in time. -/
structure WellFormed (m : Message) : Prop where
  data : m.data.WellFormed
  extra : (Value.object m.extra).WellFormed
  createdAt : m.createdAt.isValid = true

/-- The values of the message nest less deep than the reader allows. -/
structure Shallow (m : Message) : Prop where
  data : m.data.nesting < innerDepth
  extra : (Value.object m.extra).nesting < innerDepth

namespace FieldName

/-- The key of a field. -/
def key : FieldName → String
  | id => "id"
  | channel => "channel"
  | source => "source"
  | data => "data"
  | extra => "extra"
  | createdAt => "created_at"

theorem ofKey?_key (n : FieldName) : ofKey? n.key = some n := by cases n <;> rfl

end FieldName

/-- The value of a field. -/
def fieldValue (m : Message) : FieldName → Value
  | .id => .text m.id.render
  | .channel => .text m.channel
  | .source => .text m.source.name
  | .data => m.data
  | .extra => .object m.extra
  | .createdAt => .text m.createdAt.render

/-- The object of some fields of a message, in the order given. -/
def fields (m : Message) (names : List FieldName) : Fields :=
  names.map fun n => (n.key, m.fieldValue n)

theorem encode_eq (m : Message) :
    m.encode = .object (m.fields [.channel, .createdAt, .data, .extra, .id, .source]) := rfl

/-! ## One field -/

namespace Draft

/-- The draft with one more field of a message. -/
def set (d : Draft) (m : Message) : FieldName → Draft
  | .id => { d with id := some m.id }
  | .channel => { d with channel := some m.channel }
  | .source => { d with source := some m.source }
  | .data => { d with data := some (some m.data) }
  | .extra => { d with extra := some (some m.extra) }
  | .createdAt => { d with createdAt := some m.createdAt }

theorem has_set (d : Draft) (m : Message) (n k : FieldName) :
    (d.set m n).has k = (decide (k = n) || d.has k) := by
  cases n <;> cases k <;> rfl

/-- The order of the fields makes no difference. -/
theorem set_comm (d : Draft) (m : Message) (n k : FieldName) :
    (d.set m n).set m k = (d.set m k).set m n := by
  cases n <;> cases k <;> rfl

/-- The draft with more fields of a message, one after another. -/
def setAll (d : Draft) (m : Message) (names : List FieldName) : Draft :=
  names.foldl (fun d n => d.set m n) d

theorem setAll_perm (d : Draft) (m : Message) {names names' : List FieldName}
    (h : names.Perm names') : d.setAll m names = d.setAll m names' := by
  have hcomm : RightCommutative fun (d : Draft) n => d.set m n := ⟨fun d n k => d.set_comm m n k⟩
  exact h.foldl_eq d

end Draft

theorem readAs_quoteChars {α : Type} {parse? : String → Option α} {s : String} {a : α}
    (h : parse? s = some a) (rest : List Char) :
    readAs parse? (quoteChars s ++ rest) = .ok (a, rest) := by
  simp only [readAs, expectText, skipSpace_quoteChars, quotedText_quoteChars, h]

theorem readSource_quoteChars (source : Source) (rest : List Char) :
    readSource (quoteChars source.name ++ rest) = .ok (source, rest) := by
  simp only [readSource, skipSpace_quoteChars, quotedText_quoteChars, readSource.named,
    Source.ofName?_name]

theorem readExtra_chars {extra : Fields} (h : Admitted innerDepth (.object extra))
    (hrest : EndsNumber rest) :
    readExtra ((Value.object extra).chars ++ rest) = .ok (some extra, rest) := by
  have hvalue := value_chars h hrest
  obtain ⟨cs, hcs⟩ : ∃ cs, (Value.object extra).chars = '\x7b' :: cs := by
    rcases extra with _ | ⟨⟨k, v⟩, extra⟩ <;> exact ⟨_, rfl⟩
  rw [hcs, List.cons_append] at hvalue ⊢
  rw [readExtra, skipSpace_cons rfl]
  simp only [hvalue]
  rfl

/-- What is written of a field is read as this field. -/
theorem readField_fieldValue (hwell : m.WellFormed) (hshallow : m.Shallow) (d : Draft)
    (n : FieldName) (hrest : EndsNumber rest) :
    readField d ((m.fieldValue n).chars ++ rest) n = .ok (d.set m n, rest) := by
  cases n with
  | id =>
    rw [fieldValue, chars, readField, readAs_quoteChars (MessageId.parse?_render m.id)]
    rfl
  | channel =>
    rw [fieldValue, chars, readField, readAs_quoteChars rfl]
    rfl
  | source =>
    rw [fieldValue, chars, readField, readSource_quoteChars]
    rfl
  | data =>
    rw [fieldValue, readField, value_chars ⟨hwell.data, hshallow.data⟩ hrest]
    rfl
  | extra =>
    rw [fieldValue, readField, readExtra_chars ⟨hwell.extra, hshallow.extra⟩ hrest]
    rfl
  | createdAt =>
    rw [fieldValue, chars, readField, readAs_quoteChars (Timestamp.parse?_render hwell.createdAt)]
    rfl

/-! ## All fields -/

theorem readObject_cons (hwell : m.WellFormed) (hshallow : m.Shallow) {fuel : Nat} (first : Bool)
    {n : FieldName} (hnew : d.has n = false) (more : Fields) (rest : List Char) :
    readObject (fuel + 1) first d (comma first ++
        (quoteChars n.key ++ ':' :: ((m.fieldValue n).chars ++ (fieldChars more ++ rest)))) =
      readObject fuel false (d.set m n) (fieldChars more ++ rest) := by
  have hfield := readField_fieldValue hwell hshallow d n (endsNumber_fieldChars more rest)
  simp only [readObject, quoteChars_append, nextKey_quote, quotedText_quoteChars,
    FieldName.ofKey?_key, hnew, Bool.false_eq_true, if_false, colon_cons, hfield]

/-- The fields left in an object, none of which has been read before. -/
theorem readObject_fields (hwell : m.WellFormed) (hshallow : m.Shallow) {names : List FieldName}
    {fuel : Nat} (hfuel : names.length < fuel) (hnodup : names.Nodup)
    (hnew : ∀ n ∈ names, d.has n = false) (rest : List Char) :
    readObject fuel false d (fieldChars (m.fields names) ++ rest) =
      (d.setAll m names).finish.map (·, rest) := by
  induction names generalizing fuel d with
  | nil =>
    cases fuel with
    | zero => cases hfuel
    | succ fuel => rfl
  | cons n names ih =>
    cases fuel with
    | zero => cases hfuel
    | succ fuel =>
      obtain ⟨hn, hnodup⟩ := List.nodup_cons.1 hnodup
      have htext : fieldChars (m.fields (n :: names)) ++ rest = comma false ++
          (quoteChars n.key ++ ':' :: ((m.fieldValue n).chars ++
            (fieldChars (m.fields names) ++ rest))) := by
        simp [fields, fieldChars, comma]
      rw [htext, readObject_cons hwell hshallow false (hnew n List.mem_cons_self)]
      refine ih (Nat.lt_of_succ_lt_succ hfuel) hnodup fun k hk => ?_
      rw [Draft.has_set, hnew k (List.mem_cons_of_mem _ hk), Bool.or_false, decide_eq_false_iff_not]
      rintro rfl
      exact hn hk

theorem length_lt_length_fieldChars (fs : Fields) : fs.length < (fieldChars fs).length := by
  induction fs with
  | nil => exact Nat.succ_pos _
  | cons f fs ih =>
    obtain ⟨k, v⟩ := f
    simp only [fieldChars, List.length_cons, List.length_append, List.cons_append]
    omega

/-- The fields that make the message, in whatever order: all of them, or all but the extra ones if
there are none of these. -/
def Complete (m : Message) (names : List FieldName) : Prop :=
  names.Perm FieldName.all ∨ m.extra = [] ∧ names.Perm (FieldName.all.erase .extra)

theorem finish_setAll {names : List FieldName} (h : m.Complete names) :
    (Draft.setAll {} m names).finish = .ok (some m) := by
  rcases h with h | ⟨hextra, h⟩
  · rw [Draft.setAll_perm _ _ h]
    rfl
  · rw [Draft.setAll_perm _ _ h]
    obtain ⟨id, channel, source, data, extra, createdAt⟩ := m
    cases hextra
    rfl

theorem Complete.nodup {names : List FieldName} (h : m.Complete names) : names.Nodup := by
  rcases h with h | ⟨-, h⟩ <;> exact h.nodup_iff.2 (by decide)

theorem Complete.ne_nil {names : List FieldName} (h : m.Complete names) : names ≠ [] := by
  rintro rfl
  rcases h with h | ⟨-, h⟩ <;> cases h.length_eq

/-- All the fields of an object, from the first one on. -/
theorem readObject_all (hwell : m.WellFormed) (hshallow : m.Shallow) {n : FieldName}
    {names : List FieldName} {fuel : Nat} (hfuel : names.length < fuel)
    (hnodup : (n :: names).Nodup) (rest : List Char) :
    readObject (fuel + 1) true {} (quoteChars n.key ++ ':' :: ((m.fieldValue n).chars ++
        (fieldChars (m.fields names) ++ rest))) =
      (Draft.setAll {} m (n :: names)).finish.map (·, rest) := by
  obtain ⟨hn, hnodup⟩ := List.nodup_cons.1 hnodup
  have hempty : ∀ k, Draft.has {} k = false := fun k => by cases k <;> rfl
  have hnew : ∀ k ∈ names, (Draft.set {} m n).has k = false := by
    intro k hk
    rw [Draft.has_set, hempty, Bool.or_false, decide_eq_false_iff_not]
    rintro rfl
    exact hn hk
  exact (readObject_cons hwell hshallow true (hempty n) _ _).trans
    (readObject_fields hwell hshallow hfuel hnodup hnew rest)

/-- **A message is read back** from its fields in any order. -/
theorem decode_fields (hwell : m.WellFormed) (hshallow : m.Shallow) {names : List FieldName}
    (hnames : m.Complete names) : decode (Value.object (m.fields names)).render = .ok m := by
  cases names with
  | nil => exact absurd rfl hnames.ne_nil
  | cons n names =>
    obtain ⟨cs, hcs⟩ : ∃ cs, cs = quoteChars n.key ++ ':' :: ((m.fieldValue n).chars ++
        (fieldChars (m.fields names) ++ [])) := ⟨_, rfl⟩
    have htext : (Value.object (m.fields (n :: names))).render.toList = '\x7b' :: cs := by
      simp [hcs, render, fields, chars]
    have hfuel : names.length < cs.length := by
      have hlength := length_lt_length_fieldChars (m.fields names)
      rw [fields, List.length_map] at hlength
      simp only [hcs, fields, List.length_append, List.length_cons]
      omega
    have hread := readObject_all hwell hshallow hfuel hnames.nodup []
    rw [← hcs, finish_setAll hnames] at hread
    have hskip : skipSpace ('\x7b' :: cs) = '\x7b' :: cs := rfl
    simp only [decode, htext, hskip, hread]
    rfl

/-! ## What is read -/

namespace Draft

/-- What has been read so far may be part of a message. -/
structure Sound (d : Draft) : Prop where
  data : ∀ v, d.data = some (some v) → Admitted innerDepth v
  extra : ∀ fs, d.extra = some (some fs) → Admitted innerDepth (.object fs)
  createdAt : ∀ t, d.createdAt = some t → t.isValid = true

theorem sound_empty : Sound {} := ⟨nofun, nofun, nofun⟩

theorem admitted_noExtra : Admitted innerDepth (.object []) :=
  ⟨.object List.Pairwise.nil nofun, by decide⟩

theorem Sound.noExtra (h : d.Sound) : Sound { d with extra := some (some []) } :=
  ⟨h.data, by rintro _ ⟨⟩; exact admitted_noExtra, h.createdAt⟩

/-- Only sound messages are finished. -/
theorem Sound.wellFormed_of_finish (h : d.Sound) (hfinish : d.finish = .ok (some m)) :
    m.WellFormed ∧ m.Shallow := by
  unfold finish at hfinish
  split at hfinish
  · next data createdAt _ _ _ hdata hcreatedAt =>
    simp only [Except.ok.injEq, Option.bind_eq_bind, Option.pure_def, Option.bind_eq_some_iff,
      Option.some.injEq] at hfinish
    obtain ⟨data, rfl, extra, hextra, rfl⟩ := hfinish
    have hadmitted := h.data data hdata
    have hadmitted' : Admitted innerDepth (.object extra) := by
      cases hd : d.extra with
      | none =>
        rw [hd] at hextra
        cases hextra
        exact admitted_noExtra
      | some read =>
        rw [hd] at hextra
        cases hextra
        exact h.extra extra hd
    exact ⟨⟨hadmitted.wellFormed, hadmitted'.wellFormed, h.createdAt _ hcreatedAt⟩,
      ⟨hadmitted.nesting_lt, hadmitted'.nesting_lt⟩⟩
  · cases hfinish

end Draft

theorem exists_of_readAs {α : Type} {parse? : String → Option α} {a : α}
    (h : readAs parse? cs = .ok (a, rest)) : ∃ s, parse? s = some a := by
  unfold readAs at h
  split at h
  · cases h
  · next s _ _ =>
    split at h
    · next hs =>
      cases h
      exact ⟨s, hs⟩
    · cases h

theorem admitted_of_readExtra {fs : Fields} (h : readExtra cs = .ok (some fs, rest)) :
    Admitted innerDepth (.object fs) := by
  unfold readExtra at h
  split at h
  · obtain ⟨⟨v, _⟩, hvalue, heq⟩ := exists_of_map_eq_ok h
    obtain ⟨v, rfl, hfields⟩ := Option.bind_eq_some_iff.1 (Prod.mk.inj heq).1
    cases v with
    | object fields =>
      cases hfields
      exact admitted_of_value (by decide) hvalue
    | _ => cases hfields
  · cases h

theorem sound_readField {d' : Draft} {n : FieldName} (h : d.Sound)
    (hread : readField d cs n = .ok (d', rest)) : d'.Sound := by
  cases n with
  | id =>
    obtain ⟨_, -, heq⟩ := exists_of_map_eq_ok hread
    cases heq
    exact ⟨h.data, h.extra, h.createdAt⟩
  | channel =>
    obtain ⟨_, -, heq⟩ := exists_of_map_eq_ok hread
    cases heq
    exact ⟨h.data, h.extra, h.createdAt⟩
  | source =>
    obtain ⟨_, -, heq⟩ := exists_of_map_eq_ok hread
    cases heq
    exact ⟨h.data, h.extra, h.createdAt⟩
  | data =>
    obtain ⟨⟨data, _⟩, hvalue, heq⟩ := exists_of_map_eq_ok hread
    cases heq
    refine ⟨?_, h.extra, h.createdAt⟩
    rintro v ⟨⟩
    exact admitted_of_value (by decide) hvalue
  | extra =>
    obtain ⟨⟨extra, _⟩, hvalue, heq⟩ := exists_of_map_eq_ok hread
    cases heq
    refine ⟨h.data, ?_, h.createdAt⟩
    rintro fs ⟨⟩
    exact admitted_of_readExtra hvalue
  | createdAt =>
    obtain ⟨⟨t, _⟩, htime, heq⟩ := exists_of_map_eq_ok hread
    cases heq
    refine ⟨h.data, h.extra, ?_⟩
    rintro t ⟨⟩
    obtain ⟨s, hs⟩ := exists_of_readAs htime
    exact Timestamp.isValid_of_parse? hs

theorem wellFormed_of_readObject {fuel : Nat} {first : Bool} (h : d.Sound)
    (hread : readObject fuel first d cs = .ok (some m, rest)) : m.WellFormed ∧ m.Shallow := by
  induction fuel generalizing first d cs with
  | zero => cases hread
  | succ fuel ih =>
    rw [readObject] at hread
    split at hread
    · cases hread
    · obtain ⟨_, hfinish, heq⟩ := exists_of_map_eq_ok hread
      cases heq
      exact h.wellFormed_of_finish hfinish
    split at hread
    · cases hread
    split at hread
    · -- a field of a message
      split at hread
      · cases hread
      split at hread
      · cases hread
      split at hread
      · cases hread
      · next hfield => exact ih (sound_readField h hfield) hread
    · -- a key that is unknown
      split at hread
      · cases hread
      split at hread
      · cases hread
      · exact ih h hread

theorem wellFormed_of_readList {first : Bool} {names : List FieldName} (h : d.Sound)
    (hread : readList first names d cs = .ok (some m, rest)) : m.WellFormed ∧ m.Shallow := by
  induction names generalizing first d cs with
  | nil =>
    rw [readList] at hread
    split at hread
    · cases hread
    · next hfinish =>
      split at hread
      · cases hread
        exact h.wellFormed_of_finish hfinish
      · cases hread
      · cases hread
  | cons n names ih =>
    rw [readList] at hread
    split at hread
    · cases hread
    · split at hread
      · exact ih h.noExtra hread
      · cases hread
    · split at hread
      · cases hread
      · next hfield => exact ih (sound_readField h hfield) hread

/-- **Whatever is read as a message is well formed** and nests less deep than allowed. -/
theorem wellFormed_of_decode {s : String} (h : decode s = .ok m) : m.WellFormed ∧ m.Shallow := by
  unfold decode at h
  dsimp only at h
  split at h
  · cases h
  · next read rest hread =>
    split at h
    · cases h
    · split at h
      · cases h
        split at hread
        · exact wellFormed_of_readObject Draft.sound_empty hread
        · exact wellFormed_of_readList Draft.sound_empty hread
        · cases hread
      · cases h

/-! ## There and back -/

/-- **Messages survive encoding.** A well-formed message is read back as it was, with the same text,
style and reply channel, exactly if its data and its extra fields nest less deep than the reader
allows. The fields may come in any order, and the extra ones may be left out if there are none. A
message that is read from a text is well formed, and it survives; from a text with floating-point
numbers in what is kept of it, none is read (`Value`). -/
theorem decode_encode :
    (∀ m : Message, m.WellFormed →
      (decode m.encode.render = .ok m ↔ m.Shallow) ∧
        ∀ names, m.Complete names →
          (decode (Value.object (m.fields names)).render = .ok m ↔ m.Shallow)) ∧
      ∀ (s : String) (m : Message), decode s = .ok m →
        m.WellFormed ∧ m.Shallow ∧ decode m.encode.render = .ok m := by
  have hencode : ∀ m : Message,
      m.Complete [.channel, .createdAt, .data, .extra, .id, .source] := fun _ => .inl (by decide)
  refine ⟨fun m hwell => ⟨⟨fun h => (wellFormed_of_decode h).2, fun hshallow => ?_⟩,
    fun names hnames => ⟨fun h => (wellFormed_of_decode h).2, fun hshallow => ?_⟩⟩, fun s m h => ?_⟩
  · rw [encode_eq]
    exact decode_fields hwell hshallow (hencode m)
  · exact decode_fields hwell hshallow hnames
  · obtain ⟨hwell, hshallow⟩ := wellFormed_of_decode h
    refine ⟨hwell, hshallow, ?_⟩
    rw [encode_eq]
    exact decode_fields hwell hshallow (hencode m)

/-- The least and the greatest integer, an empty key, characters that are escaped and others that are
not, and a leap second before the common era. -/
theorem decode_encode_hard_values :
    let m : Message :=
      { id := ⟨0x0123456789abcdef⟩, channel := "a:\"\\\n", source := .client
        data := .object
          [("", .list [.int (-9223372036854775808), .int 18446744073709551615, .bool true, .null]),
            ("\x00\x7f", .text "/\t\u00e9\u2028")]
        extra := [("end", .text ""), ("style", .text "info")]
        createdAt := ⟨-1, 12, 31, 23, 59, 60, 1000⟩ }
    m.WellFormed ∧ m.Shallow ∧ decode m.encode.render = .ok m := by
  intro m
  have hlist : (Value.list [.int (-9223372036854775808), .int 18446744073709551615, .bool true,
      .null]).WellFormed := by
    refine .list fun v hv => ?_
    simp only [List.mem_cons, List.not_mem_nil, or_false] at hv
    rcases hv with rfl | rfl | rfl | rfl
    · exact .int (by decide)
    · exact .int (by decide)
    · exact .bool true
    · exact .null
  have hwell : m.WellFormed := by
    refine ⟨.object (by decide) ?_, .object (by decide) ?_, by decide⟩
    · exact List.forall_mem_cons.2 ⟨hlist, List.forall_mem_cons.2 ⟨.text _, nofun⟩⟩
    · exact List.forall_mem_cons.2 ⟨.text _, List.forall_mem_cons.2 ⟨.text _, nofun⟩⟩
  have hshallow : m.Shallow := ⟨by decide, by decide⟩
  exact ⟨hwell, hshallow, (decode_encode.1 m hwell).1.2 hshallow⟩

/-- Lists inside each other. -/
def nested : Nat → Value
  | 0 => .null
  | n + 1 => .list [nested n]

theorem nesting_nested (n : Nat) : (nested n).nesting = n := by
  induction n with
  | zero => rfl
  | succ n ih => rw [nested, nesting, itemsNesting, itemsNesting, ih, Nat.max_zero]

theorem wellFormed_nested (n : Nat) : (nested n).WellFormed := by
  induction n with
  | zero => exact .null
  | succ n ih => exact .list fun v hv => List.mem_singleton.1 hv ▸ ih

/-- A message whose data are lists inside each other. -/
def nestedMessage (n : Nat) : Message where
  id := ⟨0⟩
  channel := "default"
  source := .server
  data := nested n
  extra := []
  createdAt := ⟨2024, 1, 1, 0, 0, 0, 0⟩

theorem wellFormed_nestedMessage (n : Nat) : (nestedMessage n).WellFormed :=
  ⟨wellFormed_nested n, .object List.Pairwise.nil nofun, rfl⟩

/-- A message that is too deep is written, but it is not read back. -/
theorem nested_message_refused :
    (nestedMessage innerDepth).WellFormed ∧
      decode (nestedMessage innerDepth).encode.render ≠ .ok (nestedMessage innerDepth) := by
  refine ⟨wellFormed_nestedMessage _, fun h => ?_⟩
  have hdata : (nested innerDepth).nesting < innerDepth := (wellFormed_of_decode h).2.data
  rw [nesting_nested] at hdata
  exact Nat.lt_irrefl _ hdata

end Message
end Parley
