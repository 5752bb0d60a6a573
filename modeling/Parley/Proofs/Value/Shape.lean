import Mathlib.Data.String.Basic
import Parley.Value.Reader

/-!
# Values that can be written down

A value is well formed if its integers are in range and its objects have their keys in order
(`Value.WellFormed`). How deep it nests is a number of its own (`Value.nesting`): reading bounds it,
writing does not.
-/

set_option autoImplicit false

namespace Parley

/-! ## Fields in order -/

namespace Fields

variable {α : Type} {key : String} {value : α} {fields : List (String × α)}

/-- The keys come in strict order. -/
def Sorted (fields : List (String × α)) : Prop := (fields.map Prod.fst).Pairwise (· < ·)

instance (fields : List (String × α)) : Decidable (Sorted fields) :=
  inferInstanceAs (Decidable (List.Pairwise _ _))

/-- A key behind all others goes to the end. -/
theorem insert_of_forall_lt (h : ∀ k ∈ fields.map Prod.fst, k < key) :
    insert key value fields = fields ++ [(key, value)] := by
  induction fields with
  | nil => rfl
  | cons f fields ih =>
    obtain ⟨k, v⟩ := f
    have hk : k < key := h k List.mem_cons_self
    have hrest := ih fun k' hk' => h k' (List.mem_cons_of_mem _ hk')
    rw [insert, if_neg (lt_asymm hk), if_neg hk.ne', hrest, List.cons_append]

theorem mem_insert {f : String × α} (h : f ∈ insert key value fields) :
    f = (key, value) ∨ f ∈ fields := by
  induction fields with
  | nil => exact .inl (List.mem_singleton.1 h)
  | cons g fields ih =>
    obtain ⟨k, v⟩ := g
    unfold insert at h
    split at h
    · exact List.mem_cons.1 h
    split at h
    · exact (List.mem_cons.1 h).imp_right (List.mem_cons_of_mem _)
    · rcases List.mem_cons.1 h with rfl | h
      · exact .inr List.mem_cons_self
      · exact (ih h).imp_right (List.mem_cons_of_mem _)

theorem sorted_insert (h : Sorted fields) : Sorted (insert key value fields) := by
  induction fields with
  | nil => exact List.pairwise_singleton _ _
  | cons g fields ih =>
    obtain ⟨k, v⟩ := g
    obtain ⟨hfirst, hrest⟩ := List.pairwise_cons.1 h
    unfold insert
    split
    · next hlt =>
      refine List.pairwise_cons.2 ⟨fun k' hk' => ?_, h⟩
      rcases List.mem_cons.1 hk' with rfl | hk'
      · exact hlt
      · exact hlt.trans (hfirst k' hk')
    split
    · next heq => exact heq ▸ h
    · next hle hne =>
      refine List.pairwise_cons.2 ⟨fun k' hk' => ?_, ih hrest⟩
      obtain ⟨f, hf, rfl⟩ := List.mem_map.1 hk'
      rcases mem_insert hf with rfl | hf
      · exact lt_of_le_of_ne (not_lt.1 hle) (Ne.symm hne)
      · exact hfirst _ (List.mem_map_of_mem hf)

end Fields

namespace Value

/-- An integer that 64 bits hold, with or without a sign. -/
def InRange (n : Int) : Prop := Numeral.minInt ≤ n ∧ n ≤ Numeral.maxInt

instance (n : Int) : Decidable (InRange n) := inferInstanceAs (Decidable (_ ∧ _))

/-- The integers are in range and the keys of objects in order. -/
inductive WellFormed : Value → Prop
  | null : WellFormed .null
  | bool (b : Bool) : WellFormed (.bool b)
  | int {n : Int} (range : InRange n) : WellFormed (.int n)
  | text (s : String) : WellFormed (.text s)
  | list {items : List Value} (items_wellFormed : ∀ v ∈ items, WellFormed v) :
      WellFormed (.list items)
  | object {fields : Fields} (sorted : Fields.Sorted fields)
      (fields_wellFormed : ∀ f ∈ fields, WellFormed f.2) : WellFormed (.object fields)

theorem wellFormed_list_iff {items : List Value} :
    WellFormed (.list items) ↔ ∀ v ∈ items, v.WellFormed := ⟨fun | .list h => h, .list⟩

theorem wellFormed_object_iff {fields : Fields} :
    WellFormed (.object fields) ↔ Fields.Sorted fields ∧ ∀ f ∈ fields, f.2.WellFormed :=
  ⟨fun | .object sorted h => ⟨sorted, h⟩, fun h => .object h.1 h.2⟩

/-! ## Nesting -/

mutual

/-- How many lists and objects lie inside each other. -/
def nesting : Value → Nat
  | list items => itemsNesting items + 1
  | object fields => fieldsNesting fields + 1
  | _ => 0

def itemsNesting : List Value → Nat
  | [] => 0
  | v :: rest => max (nesting v) (itemsNesting rest)

def fieldsNesting : List (String × Value) → Nat
  | [] => 0
  | (_, v) :: rest => max (nesting v) (fieldsNesting rest)

end

variable {n : Nat}

theorem itemsNesting_lt_iff (hn : 0 < n) (items : List Value) :
    itemsNesting items < n ↔ ∀ v ∈ items, v.nesting < n := by
  induction items with
  | nil => simp [itemsNesting, hn]
  | cons v items ih => rw [itemsNesting, Nat.max_lt, ih, List.forall_mem_cons]

theorem fieldsNesting_lt_iff (hn : 0 < n) (fields : Fields) :
    fieldsNesting fields < n ↔ ∀ f ∈ fields, f.2.nesting < n := by
  induction fields with
  | nil => simp [fieldsNesting, hn]
  | cons f fields ih => rw [fieldsNesting, Nat.max_lt, ih, List.forall_mem_cons]

/-- What a reader may give that lets values nest less than `depth` deep. -/
structure Admitted (depth : Nat) (v : Value) : Prop where
  wellFormed : v.WellFormed
  nesting_lt : v.nesting < depth

theorem admitted_list_iff {depth : Nat} {items : List Value} : Admitted depth (.list items) ↔
    1 < depth ∧ ∀ v ∈ items, Admitted (depth - 1) v := by
  constructor
  · rintro ⟨hwell, hnesting⟩
    rw [wellFormed_list_iff] at hwell
    rw [nesting] at hnesting
    have hitems := (itemsNesting_lt_iff (n := depth - 1) (by omega) items).1 (by omega)
    exact ⟨by omega, fun v hv => ⟨hwell v hv, hitems v hv⟩⟩
  · rintro ⟨hdepth, hitems⟩
    have hnesting := (itemsNesting_lt_iff (n := depth - 1) (by omega) items).2
      fun v hv => (hitems v hv).nesting_lt
    refine ⟨.list fun v hv => (hitems v hv).wellFormed, ?_⟩
    rw [nesting]
    omega

theorem admitted_object_iff {depth : Nat} {fields : Fields} : Admitted depth (.object fields) ↔
    1 < depth ∧ Fields.Sorted fields ∧ ∀ f ∈ fields, Admitted (depth - 1) f.2 := by
  constructor
  · rintro ⟨hwell, hnesting⟩
    obtain ⟨hsorted, hwell⟩ := wellFormed_object_iff.1 hwell
    rw [nesting] at hnesting
    have hfields := (fieldsNesting_lt_iff (n := depth - 1) (by omega) fields).1 (by omega)
    exact ⟨by omega, hsorted, fun f hf => ⟨hwell f hf, hfields f hf⟩⟩
  · rintro ⟨hdepth, hsorted, hfields⟩
    have hnesting := (fieldsNesting_lt_iff (n := depth - 1) (by omega) fields).2
      fun f hf => (hfields f hf).nesting_lt
    refine ⟨.object hsorted fun f hf => (hfields f hf).wellFormed, ?_⟩
    rw [nesting]
    omega

/-! ## Fields while they are read -/

/-- A field for which there is a value. -/
def kept (f : String × Value) : String × Option Value := (f.1, some f.2)

theorem keptFields?_map_kept (fields : Fields) : keptFields? (fields.map kept) = some fields := by
  induction fields with
  | nil => rfl
  | cons f fields ih =>
    simp only [keptFields?] at ih ⊢
    simp [kept, ih]

/-- The fields of an object are kept if there is a value for each. -/
theorem eq_map_kept_of_keptFields? {fs : List (String × Option Value)} {fields : Fields}
    (h : keptFields? fs = some fields) : fs = fields.map kept := by
  induction fs generalizing fields with
  | nil =>
    cases h
    rfl
  | cons f fs ih =>
    obtain ⟨key, _ | v⟩ := f
    · cases h
    · simp only [keptFields?, List.mapM_cons, Option.map_some, Option.pure_def, Option.bind_eq_bind,
        Option.bind_some, Option.bind_eq_some_iff, Option.some.injEq] at h
      obtain ⟨rest, hrest, rfl⟩ := h
      rw [ih hrest]
      rfl

end Value
end Parley
