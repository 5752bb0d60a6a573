import Parley.Proofs.Files.Write

/-!
# Files are removed one at a time

When a file has been removed, the paths that led to it lead nowhere, and every other path leads where
it led before (`find_remove_eq_ok_iff`): a file is no part of the way to anything else, so what leads
through directories is left as it was (`aim_erase_eq_ok_iff`).
-/

set_option autoImplicit false

namespace Parley.Files.Tree

variable {t t' : Tree} {k l l' : Location} {e : Entry} {name path : String} {content : List UInt8}

/-! ## Erasing a file -/

/-- The root is no file. -/
theorem ne_nil_of_file (hk : t.entryAt? k = some (.file content)) : k ≠ [] := by
  rintro rfl
  cases hk

theorem entryAt?_erase_self (t : Tree) (hk : k ≠ []) : entryAt? (t.erase k) k = none := by
  have hempty : k.isEmpty = false := by simpa using hk
  rw [entryAt?, hempty, erase, if_neg Bool.false_ne_true, List.lookup_eq_none_iff]
  intro entry hentry
  have hne : entry.1 ≠ k := by simpa using (List.mem_filter.1 hentry).2
  exact bne_iff_ne.2 hne.symm

theorem entryAt?_erase_eq_some_iff (hk : t.entryAt? k = some (.file content)) :
    entryAt? (t.erase k) l = some e ↔ t.entryAt? l = some e ∧ l ≠ k := by
  by_cases hl : l = k
  · subst hl
    simp [entryAt?_erase_self t (ne_nil_of_file hk)]
  · have hsame : entryAt? (t.erase k) l = t.entryAt? l := by
      rw [entryAt?, entryAt?, lookup_erase t hl]
    simp [hsame, hl]

theorem look_erase_eq_ok_iff (hk : t.entryAt? k = some (.file content)) :
    (t.erase k).look l name = .ok e ↔ t.look l name = .ok e ∧ l ++ [name] ≠ k := by
  rw [look_eq_ok_iff, look_eq_ok_iff, entryAt?_erase_eq_some_iff hk, and_assoc]

/-- Directories stay. -/
theorem look_erase_eq_directory_iff (hk : t.entryAt? k = some (.file content)) :
    (t.erase k).look l name = .ok .directory ↔ t.look l name = .ok .directory := by
  rw [look_erase_eq_ok_iff hk, and_iff_left_iff_imp]
  rintro hlook rfl
  cases hk.symm.trans (look_eq_ok_iff.1 hlook).2

/-! ## Ways -/

/-- A name that is not made of dots leads through the directory that has it. -/
theorem descend_cons_eq_ok_iff {names : List String} (hdot : name ≠ ".") (hup : name ≠ "..") :
    t.descend l (name :: names) = .ok l' ↔
      t.look l name = .ok .directory ∧ t.descend (l ++ [name]) names = .ok l' := by
  rw [descend, if_neg hdot, if_neg hup]
  split <;> simp_all

theorem descend_erase_eq_ok_iff {names : List String} (hk : t.entryAt? k = some (.file content)) :
    (t.erase k).descend l names = .ok l' ↔ t.descend l names = .ok l' := by
  induction names generalizing l with
  | nil => rfl
  | cons name names ih =>
    by_cases hdot : name = "."
    · rw [descend, descend, if_pos hdot, if_pos hdot, ih]
    by_cases hup : name = ".."
    · rw [descend, descend, if_neg hdot, if_neg hdot, if_pos hup, if_pos hup, ih]
    rw [descend_cons_eq_ok_iff hdot hup, descend_cons_eq_ok_iff hdot hup,
      look_erase_eq_directory_iff hk, ih]

/-- What a path asks for does not depend on files. -/
theorem aim_erase_eq_ok_iff {a : Aim} (hk : t.entryAt? k = some (.file content)) :
    (t.erase k).aim path = .ok a ↔ t.aim path = .ok a := by
  unfold aim
  split
  · rfl
  split
  · rfl
  dsimp only
  split
  · rfl
  -- the two trees answer the same way, or each of them gives a fault of its own
  rw [show (t.erase k).here = t.here from rfl]
  generalize (if (parts path).head? = some "" then [] else t.here) = start
  generalize ((parts path).filter (· ≠ "")).dropLast = names
  cases hway : t.descend start names with
  | ok l =>
    rw [(descend_erase_eq_ok_iff hk).2 hway]
  | error f =>
    cases herased : (t.erase k).descend start names with
    | ok l => cases hway.symm.trans ((descend_erase_eq_ok_iff hk).1 herased)
    | error f => simp

/-! ## Finding -/

theorem find_eq_file_iff : t.find path = .ok (l, .file content) ↔
    ∃ l' name, t.aim path = .ok (.name l' name false) ∧ t.look l' name = .ok (.file content) ∧
      l = l' ++ [name] := by
  rw [find]
  cases haim : t.aim path with
  | error f => simp
  | ok a =>
    cases a with
    | directory l' => simp [eq_comm]
    | name l' name slash =>
      cases hlook : t.look l' name with
      | error f => simp [hlook]
      | ok e => cases e <;> cases slash <;> simp [hlook, and_assoc, @eq_comm _ l, and_comm]

theorem find_eq_directory_iff : t.find path = .ok (l, .directory) ↔
    t.aim path = .ok (.directory l) ∨ ∃ l' name slash, t.aim path = .ok (.name l' name slash) ∧
      t.look l' name = .ok .directory ∧ l = l' ++ [name] := by
  rw [find]
  cases haim : t.aim path with
  | error f => simp
  | ok a =>
    cases a with
    | directory l' => simp [eq_comm]
    | name l' name slash =>
      cases hlook : t.look l' name with
      | error f => simp [hlook]
      | ok e => cases e <;> cases slash <;> simp [hlook, and_assoc, @eq_comm _ l, and_comm]

/-- What a path leads to is there. -/
theorem entryAt?_of_find_file (h : t.find path = .ok (l, .file content)) :
    t.entryAt? l = some (.file content) := by
  obtain ⟨l', name, -, hlook, rfl⟩ := find_eq_file_iff.1 h
  exact (look_eq_ok_iff.1 hlook).2

/-- **Erasing a file** makes the paths to it lead nowhere, and no others. -/
theorem find_erase_eq_ok_iff {found : Location × Entry} (hk : t.entryAt? k = some (.file content)) :
    (t.erase k).find path = .ok found ↔ t.find path = .ok found ∧ found ≠ (k, .file content) := by
  obtain ⟨l, e⟩ := found
  cases e with
  | directory =>
    simp only [find_eq_directory_iff, aim_erase_eq_ok_iff hk, look_erase_eq_directory_iff hk]
    simp
  | file c =>
    rw [find_eq_file_iff, find_eq_file_iff]
    simp only [aim_erase_eq_ok_iff hk, look_erase_eq_ok_iff hk]
    constructor
    · rintro ⟨l', name, haim, ⟨hlook, hne⟩, rfl⟩
      exact ⟨⟨l', name, haim, hlook, rfl⟩, fun heq => hne (Prod.mk.inj heq).1⟩
    · rintro ⟨⟨l', name, haim, hlook, rfl⟩, hne⟩
      refine ⟨l', name, haim, ⟨hlook, ?_⟩, rfl⟩
      rintro rfl
      have hcontent := hk.symm.trans (look_eq_ok_iff.1 hlook).2
      cases hcontent
      exact hne rfl

/-! ## Removing -/

theorem remove_eq_ok_iff : t.remove path = .ok t' ↔
    ∃ l content, t.find path = .ok (l, .file content) ∧ t' = t.erase l := by
  rw [remove]
  cases hfind : t.find path with
  | error f => simp
  | ok found =>
    obtain ⟨l, e⟩ := found
    cases e <;> simp [eq_comm]

/-- **Removing a file** makes the paths to it lead nowhere, and no others. -/
theorem find_remove_eq_ok_iff {other : String} {found : Location × Entry}
    (h : t.remove path = .ok t') :
    t'.find other = .ok found ↔ t.find other = .ok found ∧ t.find other ≠ t.find path := by
  obtain ⟨l, content, hfind, rfl⟩ := remove_eq_ok_iff.1 h
  rw [find_erase_eq_ok_iff (entryAt?_of_find_file hfind), hfind]
  refine and_congr_right fun hother => ?_
  rw [hother, Ne, Ne, Except.ok.injEq]

end Parley.Files.Tree
