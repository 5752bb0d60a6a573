import Parley.Proofs.Value.Scalar

/-!
# What is read is well formed

Whatever text a value is read from, its integers are in range, the keys of its objects are in order,
and it nests less deep than the reader allows (`admitted_of_value`). The induction is on the fuel and
follows the reader: one step of it keeps values, items and fields admitted.
-/

set_option autoImplicit false

namespace Parley.Value

variable {fuel depth : Nat} {cs rest : List Char}

theorem exists_of_map_eq_ok {ε α β : Type} {f : α → β} {x : Except ε α} {b : β}
    (h : x.map f = .ok b) : ∃ a, x = .ok a ∧ f a = b := by
  cases x with
  | error e => cases h
  | ok a => exact ⟨a, rfl, Except.ok.inj h⟩

/-- The fields that are read so far: in order, and admitted if there is a value. -/
structure AdmittedFields (depth : Nat) (fs : List (String × Option Value)) : Prop where
  sorted : Fields.Sorted fs
  admitted : ∀ f ∈ fs, ∀ v, f.2 = some v → Admitted depth v

theorem admittedFields_nil : AdmittedFields depth [] := ⟨List.Pairwise.nil, nofun⟩

theorem admittedFields_insert {fs : List (String × Option Value)} {key : String}
    {value : Option Value} (h : AdmittedFields depth fs)
    (hvalue : ∀ v, value = some v → Admitted depth v) :
    AdmittedFields depth (Fields.insert key value fs) := by
  refine ⟨Fields.sorted_insert h.sorted, fun f hf => ?_⟩
  rcases Fields.mem_insert hf with rfl | hf
  · exact hvalue
  · exact h.admitted f hf

/-- The object of admitted fields nests one deeper. -/
theorem admitted_object_of_kept {fs : List (String × Option Value)} {fields : Fields}
    (hdepth : 1 < depth) (h : AdmittedFields (depth - 1) fs) (hkept : keptFields? fs = some fields) :
    Admitted depth (.object fields) := by
  have hmap := eq_map_kept_of_keptFields? hkept
  subst hmap
  refine admitted_object_iff.2 ⟨hdepth, ?_, fun f hf => ?_⟩
  · have hkeys : (fields.map kept).map Prod.fst = fields.map Prod.fst := by
      rw [List.map_map]
      rfl
    have hsorted := h.sorted
    rwa [Fields.Sorted, hkeys] at hsorted
  · exact h.admitted (kept f) (List.mem_map_of_mem hf) f.2 rfl

theorem inRange_of_number {n : Int} (h : number cs = .ok (some n, rest)) : InRange n := by
  unfold number at h
  split at h
  · cases h
  · split at h
    · cases h
    · exact inRange_of_int? (Prod.mk.inj (Except.ok.inj h)).1

/-! ## One step of the reader -/

/-- What the reader gives with some fuel is admitted. -/
structure ReadsAdmitted (fuel : Nat) : Prop where
  value : ∀ {depth : Nat} {cs rest : List Char} {v : Value}, 0 < depth →
    readValue false fuel depth cs = .ok (some v, rest) → Admitted depth v
  items : ∀ {depth : Nat} {first : Bool} {cs rest : List Char} {items : List Value}, 0 < depth →
    readItems false fuel depth first cs = .ok (some items, rest) → ∀ v ∈ items, Admitted depth v
  fields : ∀ {depth : Nat} {first : Bool} {done fs : List (String × Option Value)}
    {cs rest : List Char}, 0 < depth → AdmittedFields depth done →
    readFields false fuel depth first done cs = .ok (fs, rest) → AdmittedFields depth fs

theorem admitted_of_readValue {v : Value} (ih : ReadsAdmitted fuel) (hdepth : 0 < depth)
    (h : readValue false (fuel + 1) depth cs = .ok (some v, rest)) : Admitted depth v := by
  rw [readValue] at h
  split at h
  case h_1 => cases h
  case h_2 =>
    obtain ⟨_, -, heq⟩ := exists_of_map_eq_ok h
    cases heq
    exact ⟨.null, hdepth⟩
  case h_3 =>
    obtain ⟨_, -, heq⟩ := exists_of_map_eq_ok h
    cases heq
    exact ⟨.bool true, hdepth⟩
  case h_4 =>
    obtain ⟨_, -, heq⟩ := exists_of_map_eq_ok h
    cases heq
    exact ⟨.bool false, hdepth⟩
  case h_5 =>
    obtain ⟨_, -, heq⟩ := exists_of_map_eq_ok h
    cases heq
    exact ⟨.text _, hdepth⟩
  case h_6 =>
    split at h
    · cases h
    · next hdeep =>
      have hdeep : 1 < depth := by simpa using hdeep
      obtain ⟨⟨items, r⟩, hitems, heq⟩ := exists_of_map_eq_ok h
      cases items with
      | none => cases heq
      | some items =>
        cases heq
        exact admitted_list_iff.2 ⟨hdeep, ih.items (Nat.sub_pos_of_lt hdeep) hitems⟩
  case h_7 =>
    split at h
    · cases h
    · next hdeep =>
      have hdeep : 1 < depth := by simpa using hdeep
      obtain ⟨⟨fs, r⟩, hfields, heq⟩ := exists_of_map_eq_ok h
      obtain ⟨fields, hkept, rfl⟩ := Option.map_eq_some_iff.1 (Prod.mk.inj heq).1
      exact admitted_object_of_kept hdeep
        (ih.fields (Nat.sub_pos_of_lt hdeep) admittedFields_nil hfields) hkept
  case h_8 =>
    split at h
    · rw [if_neg Bool.false_ne_true] at h
      obtain ⟨⟨n, r⟩, hnumber, heq⟩ := exists_of_map_eq_ok h
      obtain ⟨n, rfl, rfl⟩ := Option.map_eq_some_iff.1 (Prod.mk.inj heq).1
      exact ⟨.int (inRange_of_number hnumber), hdepth⟩
    · cases h

theorem admitted_of_readItems {first : Bool} {items : List Value} (ih : ReadsAdmitted fuel)
    (hdepth : 0 < depth) (h : readItems false (fuel + 1) depth first cs = .ok (some items, rest)) :
    ∀ v ∈ items, Admitted depth v := by
  rw [readItems] at h
  split at h
  · cases h
  · cases h
    nofun
  split at h
  · cases h
  · next w _ hvalue =>
    obtain ⟨⟨vs, r⟩, hitems, heq⟩ := exists_of_map_eq_ok h
    obtain ⟨w, rfl, hvs⟩ := Option.bind_eq_some_iff.1 (Prod.mk.inj heq).1
    obtain ⟨vs, rfl, rfl⟩ := Option.map_eq_some_iff.1 hvs
    exact List.forall_mem_cons.2 ⟨ih.value hdepth hvalue, ih.items hdepth hitems⟩

theorem admitted_of_readFields {first : Bool} {done fs : List (String × Option Value)}
    (ih : ReadsAdmitted fuel) (hdepth : 0 < depth) (hdone : AdmittedFields depth done)
    (h : readFields false (fuel + 1) depth first done cs = .ok (fs, rest)) :
    AdmittedFields depth fs := by
  rw [readFields] at h
  split at h
  · cases h
  · cases h
    exact hdone
  split at h
  · cases h
  split at h
  · cases h
  split at h
  · cases h
  · next hvalue =>
    refine ih.fields hdepth (admittedFields_insert hdone ?_) h
    rintro v rfl
    exact ih.value hdepth hvalue

/-! ## Whole values -/

theorem readsAdmitted (fuel : Nat) : ReadsAdmitted fuel := by
  induction fuel with
  | zero => exact ⟨nofun, nofun, nofun⟩
  | succ fuel ih =>
    exact ⟨admitted_of_readValue ih, admitted_of_readItems ih, admitted_of_readFields ih⟩

/-- **What is read is well formed**, and nests less deep than allowed. -/
theorem admitted_of_value {v : Value} (hdepth : 0 < depth)
    (h : value depth cs = .ok (some v, rest)) : Admitted depth v := (readsAdmitted _).value hdepth h

end Parley.Value
