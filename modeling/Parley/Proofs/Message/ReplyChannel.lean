import Parley.Message.Basic

/-!
# Reply channels are told apart

An identifier is written in 36 characters and reads back from them (`MessageId.ofGrouped?_chars`).
So the last 36 characters of a reply channel are the identifier and what stands before the colon in
front of them is the base, whatever colons the base has itself (`Channel.reply_inj`).
-/

set_option autoImplicit false

namespace Parley

namespace MessageId

theorem length_hyphenate {n : Nat} {ns : List Nat} {ds : List Char}
    (h : ds.length = (n :: ns).foldr (· + ·) 0) :
    (hyphenate (n :: ns) ds).length = ds.length + ns.length := by
  induction ns generalizing n ds with
  | nil => simp_all [hyphenate]
  | cons m ns ih =>
    have hlen : (ds.drop n).length = (m :: ns).foldr (· + ·) 0 := by
      rw [List.length_drop, h, List.foldr_cons, Nat.add_sub_cancel_left]
    rw [hyphenate, List.length_append, List.length_cons, ih hlen, List.length_take,
      List.length_drop, h, List.foldr_cons, List.length_cons]
    omega

/-- The groups read back as the digits that were cut into them. -/
theorem ungroup?_hyphenate {n : Nat} {ns : List Nat} {ds : List Char}
    (h : ds.length = (n :: ns).foldr (· + ·) 0) :
    ungroup? (n :: ns) (hyphenate (n :: ns) ds) = some ds := by
  induction ns generalizing n ds with
  | nil =>
    rw [hyphenate, ungroup?, List.take_of_length_le (by simp_all), if_pos (by simpa using h)]
  | cons m ns ih =>
    have hlen : (ds.drop n).length = (m :: ns).foldr (· + ·) 0 := by
      rw [List.length_drop, h, List.foldr_cons, Nat.add_sub_cancel_left]
    have htake : (ds.take n).length = n := by
      rw [List.length_take, h, List.foldr_cons]
      omega
    rw [hyphenate, ungroup?, List.drop_left' htake, List.take_left' htake]
    simp only [ih hlen, Option.map_some, List.take_append_drop]

theorem length_chars (i : MessageId) : i.chars.length = 36 := by
  have hlen : (Text.hexDigits 32 i.bits.toNat).length = groups.foldr (· + ·) 0 :=
    Text.length_hexDigits _ _
  exact (length_hyphenate hlen).trans (congrArg (· + 4) (Text.length_hexDigits _ _))

/-- An identifier reads back from its written form. -/
theorem ofGrouped?_chars (i : MessageId) : ofGrouped? i.chars = some i := by
  have hlen : (Text.hexDigits 32 i.bits.toNat).length = groups.foldr (· + ·) 0 :=
    Text.length_hexDigits _ _
  have hgroups : ungroup? groups i.chars = some (Text.hexDigits 32 i.bits.toNat) :=
    ungroup?_hyphenate hlen
  have hbits : i.bits.toNat % Nat.pow 16 32 = i.bits.toNat :=
    Nat.mod_eq_of_lt (Nat.lt_of_lt_of_eq i.bits.isLt (by decide))
  rw [ofGrouped?, hgroups, Option.bind_some, ofDigits?, if_pos (Text.length_hexDigits _ _),
    Text.hexNumber?_hexDigits, Option.map_some, hbits, BitVec.ofNat_toNat, BitVec.setWidth_eq]

theorem chars_inj {i j : MessageId} (h : i.chars = j.chars) : i = j :=
  Option.some.inj ((ofGrouped?_chars i).symm.trans ((congrArg ofGrouped? h).trans
    (ofGrouped?_chars j)))

end MessageId

namespace Channel

theorem toList_reply (base : String) (id : MessageId) :
    (reply base id).toList = base.toList ++ ':' :: id.chars := by
  simp [reply, MessageId.render]

/-- A reply channel says which message it is for. -/
theorem reply_inj {base base' : String} {id id' : MessageId} (h : reply base id = reply base' id') :
    base = base' ∧ id = id' := by
  have hlist := congrArg String.toList h
  rw [toList_reply, toList_reply] at hlist
  obtain ⟨hbase, hrest⟩ := List.append_inj' hlist (by simp [MessageId.length_chars])
  exact ⟨String.toList_inj.1 hbase, MessageId.chars_inj (List.cons.inj hrest).2⟩

/-- A channel whose name has no colon is no reply channel. -/
theorem reply_ne {c : String} (hc : ':' ∉ c.toList) (base : String) (id : MessageId) :
    reply base id ≠ c := by
  rintro rfl
  rw [toList_reply] at hc
  exact hc (List.mem_append_right _ List.mem_cons_self)

end Channel
end Parley
