import Parley.Files.Basic

/-!
# Files keep what is written

What has been written to a path is read from it (`read_write`). Making directories changes no file
(`read_makeDirectories`). Both put an entry where no directory is, and then every path leads where it
led before (`aim_put`).
-/

set_option autoImplicit false

namespace Parley

theorem Text.ofBytes?_toBytes (s : String) : Text.ofBytes? (Text.toBytes s) = some s :=
  dif_pos s.isValidUTF8

namespace Files.Tree

variable {t t' : Tree} {k l l' : Location} {e : Entry} {name path : String} {content : List UInt8}

/-! ## Putting an entry -/

theorem lookup_erase (t : Tree) (h : l ≠ k) :
    (t.erase k).entries.lookup l = t.entries.lookup l := by
  obtain ⟨entries, here⟩ := t
  simp only [erase]
  induction entries with
  | nil => rfl
  | cons entry entries ih =>
    obtain ⟨i, f⟩ := entry
    by_cases hi : i = k
    · subst hi
      rw [List.filter_cons_of_neg (by simp), ih, List.lookup_cons, beq_false_of_ne h]
    · rw [List.filter_cons_of_pos (by simpa using hi), List.lookup_cons, List.lookup_cons, ih]

theorem entryAt?_put_of_ne (t : Tree) (e : Entry) (h : l ≠ k) :
    entryAt? (t.put k e) l = t.entryAt? l := by
  rw [entryAt?, entryAt?, put, List.lookup_cons, beq_false_of_ne h]
  simp only [lookup_erase t h]

theorem look_eq_ok_iff :
    t.look l name = .ok e ↔ name.utf8ByteSize ≤ maxNameSize ∧ t.entryAt? (l ++ [name]) = some e := by
  unfold look
  split
  · next h => simp [Nat.not_le_of_lt h]
  · next h =>
    rw [Nat.not_lt] at h
    cases t.entryAt? (l ++ [name]) <;> simp [h]

theorem look_eq_notFound_iff : t.look l name = .error .notFound ↔
    name.utf8ByteSize ≤ maxNameSize ∧ t.entryAt? (l ++ [name]) = none := by
  unfold look
  split
  · next h => simp [Nat.not_le_of_lt h]
  · next h =>
    rw [Nat.not_lt] at h
    cases t.entryAt? (l ++ [name]) <;> simp [h]

/-- What is there is still there, unless it has been replaced. -/
theorem look_put_of_ne {f : Entry} (h : t.look l name = .ok f) (hk : t.entryAt? k ≠ some f)
    (e : Entry) : (t.put k e).look l name = .ok f := by
  rw [look_eq_ok_iff] at h ⊢
  refine ⟨h.1, ?_⟩
  rw [entryAt?_put_of_ne, h.2]
  rintro rfl
  exact hk h.2

/-! ## Ways -/

/-- A way through directories stays one if an entry is put where no directory is. -/
theorem descend_put {names : List String} (hk : t.entryAt? k ≠ some .directory) (e : Entry)
    (h : t.descend l names = .ok l') : (t.put k e).descend l names = .ok l' := by
  induction names generalizing l with
  | nil => exact h
  | cons name names ih =>
    rw [descend] at h ⊢
    split at h
    · next hdot => rw [if_pos hdot, ih h]
    next hdot =>
    rw [if_neg hdot]
    split at h
    · next hup => rw [if_pos hup, ih h]
    next hup =>
    rw [if_neg hup]
    split at h
    · cases h
    · cases h
    · next hlook =>
      rw [look_put_of_ne hlook hk]
      exact ih h

/-- A path leads where it led before. -/
theorem aim_put {a : Aim} (hk : t.entryAt? k ≠ some .directory) (e : Entry)
    (h : t.aim path = .ok a) : (t.put k e).aim path = .ok a := by
  unfold aim at h ⊢
  split at h
  · cases h
  next hzero =>
  rw [if_neg hzero]
  split at h
  · cases h
  next hlong =>
  rw [if_neg hlong]
  dsimp only at h ⊢
  split at h
  · exact h
  split at h
  · cases h
  next hdescend =>
  have hput := descend_put hk e hdescend
  simp only [put, erase] at hput ⊢
  rw [hput]
  exact h

/-! ## Reading -/

/-- A file is read where its directory has it under its name. -/
theorem read_eq_ok_iff : t.read path = .ok content ↔
    ∃ l name, t.aim path = .ok (.name l name false) ∧ t.look l name = .ok (.file content) := by
  unfold read find
  constructor
  · intro h
    split at h
    · cases h
    · next hfind =>
      split at hfind
      · cases hfind
      · cases hfind
      · next l name slash haim =>
        split at hfind
        · cases hfind
        · cases hfind
        · next hlook =>
          split at hfind
          · cases hfind
          · next hslash =>
            cases hfind
            cases h
            rw [Bool.not_eq_true] at hslash
            subst hslash
            exact ⟨l, name, haim, hlook⟩
    · cases h
  · rintro ⟨l, name, haim, hlook⟩
    simp [haim, hlook]

/-- A file keeps its content if an entry is put where there is none. -/
theorem read_put (h : t.read path = .ok content) (hk : t.entryAt? k = none) (e : Entry) :
    (t.put k e).read path = .ok content := by
  rw [read_eq_ok_iff] at h ⊢
  obtain ⟨l, name, haim, hlook⟩ := h
  exact ⟨l, name, aim_put (by rw [hk]; nofun) e haim,
    look_put_of_ne hlook (by rw [hk]; nofun) e⟩

/-- **What has been written to a path is read from it.** -/
theorem read_write (h : t.write path content = .ok t') : t'.read path = .ok content := by
  unfold write at h
  split at h
  · cases h
  · cases h
  · cases h
  · next l name haim =>
    have hput : ∀ {before : Option Entry}, name.utf8ByteSize ≤ maxNameSize →
        t.entryAt? (l ++ [name]) = before → before ≠ some .directory →
        (t.put (l ++ [name]) (.file content)).read path = .ok content := by
      rintro _ hsize rfl hne
      refine read_eq_ok_iff.mpr ⟨l, name, aim_put hne _ haim, look_eq_ok_iff.mpr ⟨hsize, ?_⟩⟩
      exact find_put_self t _ (by simp)
    split at h
    · cases h
    · next hlook =>
      cases h
      rw [look_eq_ok_iff] at hlook
      exact hput hlook.1 hlook.2 nofun
    · next hlook =>
      cases h
      rw [look_eq_notFound_iff] at hlook
      exact hput hlook.1 hlook.2 nofun
    · cases h

theorem holds_of_read (h : t.read path = .ok content) : t.holds path = true := by
  unfold read at h
  unfold holds
  split at h
  · cases h
  · next hfind => rw [hfind]
  · next hfind => rw [hfind]

/-! ## Making directories -/

/-- Directories are made where nothing is. -/
theorem read_makeDirectory {outer : String} (h : t.makeDirectory outer = .ok t')
    (hread : t.read path = .ok content) : t'.read path = .ok content := by
  unfold makeDirectory at h
  split at h
  · cases h
  · cases h
  · split at h
    · cases h
    · next hlook =>
      cases h
      exact read_put hread (look_eq_notFound_iff.mp hlook).2 _
    · cases h

theorem forgive_fst (t : Tree) (path : String) (f : Fault) : (t.forgive path f).1 = t := by
  unfold forgive
  split <;> rfl

theorem read_makeChain {paths : List String} (hread : t.read path = .ok content) :
    (t.makeChain paths).1.read path = .ok content := by
  induction paths generalizing t with
  | nil => exact hread
  | cons first outer ih =>
    have hchain := ih hread
    unfold makeChain
    split
    · next hmake => exact read_makeDirectory hmake hread
    · split
      · next h => rw [h] at hchain; exact hchain
      · next h =>
        rw [h] at hchain
        split
        · next hmake => exact read_makeDirectory hmake hchain
        · rwa [forgive_fst]
    · rwa [forgive_fst]

/-- **Making directories changes no file**, also where it fails half way. -/
theorem read_makeDirectories (outer : String) (hread : t.read path = .ok content) :
    (t.makeDirectories outer).1.read path = .ok content := read_makeChain hread

end Files.Tree
end Parley
