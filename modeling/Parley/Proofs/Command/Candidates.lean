import Parley.Proofs.Command.Matching

/-!
# Candidates and the check of arguments

A command that says nothing else offers the words of a literal argument where that argument governs,
and nothing elsewhere. If only the last argument repeats, one argument at most governs a position
(`argumentAt_eq_some_iff`), and what the check does not refuse outright is what the arguments admit
(`tolerated_iff`). So a word that is offered is admitted, and at a literal argument no other word is
(`Command.offered_iff_tolerated`).
-/

set_option autoImplicit false

namespace Parley

variable {declared : List Argument} {values : List String}

/-- Only the last declared argument may take all remaining values. -/
def OnlyLastRepeats (declared : List Argument) : Prop :=
  ∀ (i : Nat) (a : Argument), declared[i]? = some a → a.repeatable = true → i + 1 = declared.length

instance (declared : List Argument) : Decidable (OnlyLastRepeats declared) :=
  decidable_of_iff
    (∀ i : Fin declared.length, declared[i].repeatable = true → i + 1 = declared.length)
    ⟨fun h i a ha hrepeatable => by
      obtain ⟨hi, rfl⟩ := List.getElem?_eq_some_iff.1 ha
      exact h ⟨i, hi⟩ hrepeatable,
    fun h i => h i _ (List.getElem?_eq_getElem i.2)⟩

/-- The check does not refuse the values for a wrong value or for their number; it may miss some. -/
def Tolerated (declared : List Argument) (values : List String) : Prop :=
  ∀ f, checkArguments declared values = .error f → ∃ a, f = .missing a

/-- Values are tolerated exactly if none is wrong and none is left over: an argument that is missing
leaves no values to those behind it. -/
theorem tolerated_iff : Tolerated declared values ↔ Admits declared values := by
  simp only [Tolerated, checkArguments_eq_error_iff]
  constructor
  · intro h
    cases hfirst : firstFault? values 0 declared with
    | none =>
      have hnone := firstFault?_eq_none.1 hfirst
      refine ⟨fun i a ha => (Argument.right_of_no_fault ha (hnone i)).2, not_not.1 fun hmore => ?_⟩
      obtain ⟨a, ha⟩ := h _ (.number hnone hmore)
      cases ha
    | some f =>
      obtain ⟨i, hf, hbefore⟩ := firstFault?_spec.1 hfirst
      obtain ⟨b, rfl⟩ := h f (.argument hf hbefore)
      have hshort : values.length ≤ i := by
        cases hf
        assumption
      have hfew := Nat.le_trans hshort (Nat.le_of_lt hf.lt)
      refine ⟨fun k a ha hkind j v hgoverns hv => ?_, .inl hfew⟩
      have hj : j < values.length := (List.getElem?_eq_some_iff.1 hv).1
      have hk : k < i := Nat.lt_of_le_of_lt hgoverns.le (Nat.lt_of_lt_of_le hj hshort)
      exact (Argument.right_of_no_fault ha (hbefore k hk)).2 hkind j v hgoverns hv
  · intro h f hf
    cases hf with
    | argument hf _ =>
      cases hf with
      | missing _ _ _ => exact ⟨_, rfl⟩
      | mismatch ha hkind hgoverns hv hwrong _ =>
        exact absurd (h.words _ _ ha hkind _ _ hgoverns hv) hwrong
    | number _ hmore => exact absurd h.number hmore

/-! ## The argument that governs a position -/

/-- The argument that governs a position is the one found there, if only the last one repeats. -/
theorem argumentAt_eq_some_iff (h : OnlyLastRepeats declared) {n : Nat} {a : Argument} :
    argumentAt declared n = some a ↔ ∃ i, declared[i]? = some a ∧ a.Governs i n := by
  rw [argumentAt, Option.or_eq_some_iff]
  constructor
  · rintro (ha | ⟨hnone, ha⟩)
    · exact ⟨n, ha, .inl rfl⟩
    · obtain ⟨hlast, hrepeatable⟩ := Option.filter_eq_some_iff.1 ha
      rw [List.getLast?_eq_getElem?] at hlast
      have hn := List.getElem?_eq_none_iff.1 hnone
      exact ⟨_, hlast, .inr ⟨hrepeatable, Nat.le_trans (Nat.sub_le _ _) hn⟩⟩
  · rintro ⟨i, ha, rfl | ⟨hrepeatable, hle⟩⟩
    · exact .inl ha
    · have hi := h i a ha hrepeatable
      rcases Nat.eq_or_lt_of_le hle with rfl | hlt
      · exact .inl ha
      · have hbehind : declared[n]? = none := List.getElem?_eq_none_iff.2 (hi ▸ hlt)
        refine .inr ⟨hbehind, Option.filter_eq_some_iff.2 ⟨?_, hrepeatable⟩⟩
        rw [List.getLast?_eq_getElem?, ← hi]
        exact ha

theorem takesRest_iff (h : OnlyLastRepeats declared) : takesRest declared = true ↔
    ∃ (i : Nat) (a : Argument), declared[i]? = some a ∧ a.repeatable = true := by
  rw [takesRest, List.getLast?_eq_getElem?]
  constructor
  · intro hlast
    cases ha : declared[declared.length - 1]? with
    | none =>
      rw [ha] at hlast
      cases hlast
    | some a =>
      rw [ha] at hlast
      exact ⟨_, a, ha, hlast⟩
  · rintro ⟨i, a, ha, hrepeatable⟩
    rw [← h i a ha hrepeatable, Nat.add_sub_cancel, ha]
    exact hrepeatable

/-- A position that a value may stand at is governed by an argument. -/
theorem exists_argumentAt (h : OnlyLastRepeats declared) {n : Nat}
    (hn : n < declared.length ∨ takesRest declared = true) :
    ∃ a, argumentAt declared n = some a := by
  by_cases hlt : n < declared.length
  · exact ⟨_, (argumentAt_eq_some_iff h).2 ⟨n, List.getElem?_eq_getElem hlt, .inl rfl⟩⟩
  · obtain ⟨i, a, ha, hrepeatable⟩ := (takesRest_iff h).1 (hn.resolve_left hlt)
    have hi := h i a ha hrepeatable
    exact ⟨a, (argumentAt_eq_some_iff h).2 ⟨i, ha, .inr ⟨hrepeatable, by omega⟩⟩⟩

/-- One more value is admitted exactly if an argument governs it, of which it is a word if that is a
literal. -/
theorem admits_concat_iff (h : OnlyLastRepeats declared) (hvalues : Admits declared values)
    {w : String} : Admits declared (values ++ [w]) ↔
      ∃ a, argumentAt declared values.length = some a ∧
        (a.kind = .literal → w ∈ a.descriptions) := by
  have hnew : (values ++ [w])[values.length]? = some w := List.getElem?_concat_length
  constructor
  · intro hmore
    have hnumber := hmore.number
    rw [List.length_append, List.length_singleton] at hnumber
    obtain ⟨a, ha⟩ := exists_argumentAt h hnumber
    obtain ⟨i, hi, hgoverns⟩ := (argumentAt_eq_some_iff h).1 ha
    exact ⟨a, ha, fun hkind => hmore.words i a hi hkind _ w hgoverns hnew⟩
  · rintro ⟨a, ha, hword⟩
    refine ⟨fun k b hb hkind j v hgoverns hv => ?_, ?_⟩
    · by_cases hj : j < values.length
      · rw [List.getElem?_append_left hj] at hv
        exact hvalues.words k b hb hkind j v hgoverns hv
      · -- the value is the new one, and only one argument governs its position
        have hlt := (List.getElem?_eq_some_iff.1 hv).1
        rw [List.length_append, List.length_singleton] at hlt
        obtain rfl : j = values.length := Nat.le_antisymm (Nat.le_of_lt_succ hlt) (Nat.not_lt.1 hj)
        cases ha.symm.trans ((argumentAt_eq_some_iff h).2 ⟨k, hb, hgoverns⟩)
        cases hnew.symm.trans hv
        exact hword hkind
    · rw [List.length_append, List.length_singleton]
      obtain ⟨i, hi, hin | ⟨hrepeatable, -⟩⟩ := (argumentAt_eq_some_iff h).1 ha
      · exact .inl (hin ▸ (List.getElem?_eq_some_iff.1 hi).1)
      · exact .inr ((takesRest_iff h).2 ⟨i, a, hi, hrepeatable⟩)

/-! ## What is offered -/

namespace Command

theorem mem_literalWords_iff {n : Nat} {w : String} : w ∈ literalWords declared n ↔
    ∃ a, argumentAt declared n = some a ∧ a.kind = .literal ∧ w ∈ a.descriptions := by
  unfold literalWords
  cases argumentAt declared n with
  | none => simp
  | some a => by_cases hkind : a.kind = .literal <;> simp [hkind]

/-- **Candidates and check agree.** Let a command offer the words of its literal arguments, let only
its last argument repeat, and let the check find none of the values typed so far wrong or left over.
Then it finds no fault of these kinds either if a word that is offered next is added to them; and
where a literal argument governs the next position, every word of which that is true is offered. -/
theorem offered_iff_tolerated {c : Command} {values : List String}
    (hdefault : ∀ d values n, c.candidates d values n = literalWords c.arguments n)
    (hlast : OnlyLastRepeats c.arguments) (hvalues : Tolerated c.arguments values)
    (d : Directory) (w : String) :
    (w ∈ c.candidates d values values.length → Tolerated c.arguments (values ++ [w])) ∧
      ∀ (i : Nat) (a : Argument), c.arguments[i]? = some a → a.Governs i values.length →
        a.kind = .literal → Tolerated c.arguments (values ++ [w]) →
          w ∈ c.candidates d values values.length := by
  simp only [hdefault, tolerated_iff, admits_concat_iff hlast (tolerated_iff.1 hvalues)]
  constructor
  · intro hoffered
    obtain ⟨a, ha, -, hw⟩ := mem_literalWords_iff.1 hoffered
    exact ⟨a, ha, fun _ => hw⟩
  · rintro i a hi hgoverns hkind ⟨b, hb, hword⟩
    have ha := (argumentAt_eq_some_iff hlast).2 ⟨i, hi, hgoverns⟩
    cases ha.symm.trans hb
    exact mem_literalWords_iff.2 ⟨a, ha, hkind, hword hkind⟩

/-- A command whose last argument takes any number of colours. -/
def pickCommand : Command where
  name := "pick"
  arguments := [{ kind := .required, descriptions := ["place"] },
    { kind := .literal, descriptions := ["red", "light blue"], repeatable := true }]
  help := "Pick colours"
  candidates _ _ n := literalWords [{ kind := .required, descriptions := ["place"] },
    { kind := .literal, descriptions := ["red", "light blue"], repeatable := true }] n
  body _ values := .tell ("|".intercalate values)

theorem offered_iff_tolerated_pick :
    OnlyLastRepeats pickCommand.arguments ∧ Tolerated pickCommand.arguments ["door", "red", "red"] ∧
      Tolerated pickCommand.arguments ["door", "red", "red", "light blue"] ∧
      ¬Tolerated pickCommand.arguments ["door", "red", "red", "blue"] := by
  have hlast : OnlyLastRepeats pickCommand.arguments := by decide
  have hvalues : Tolerated pickCommand.arguments ["door", "red", "red"] := fun f hf => by
    cases show Except.ok () = Except.error f from hf
  have hagree := offered_iff_tolerated (fun _ _ _ => rfl) hlast hvalues []
  refine ⟨hlast, hvalues, (hagree "light blue").1 (by decide), fun h => ?_⟩
  have hoffered := (hagree "blue").2 1 _ rfl (.inr ⟨rfl, by decide⟩) rfl h
  exact absurd hoffered (by decide)

end Command
end Parley
