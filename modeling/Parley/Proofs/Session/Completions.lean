import Parley.Proofs.Words.Boundary
import Parley.Session.Input

/-!
# Completions travel through the bus

A completion is read back from the value that stands for it. Its position is a signed integer there,
which asks for nothing: the word being typed begins in the line, so what is inserted for it begins at
the cursor or in front of it (`Registry.position_nonpos`).
-/

set_option autoImplicit false

namespace Parley

namespace Words

theorem length_dropDangling_le (cs : List Char) : (dropDangling cs).length ≤ cs.length := by
  rcases dropDangling_cases cs with ⟨-, hkept⟩ | ⟨-, hkept⟩
  · exact Nat.le_of_eq (congrArg List.length hkept)
  · rw [congrArg List.length hkept, List.length_append]
    exact Nat.le_add_right _ _

/-- The word being typed begins in the line. -/
theorem Cursor.offset_le_length {line : String} {c : Cursor} (h : Cursor.ofLine line = .ok c) :
    c.offset ≤ c.length := by
  unfold ofLine at h
  split at h
  · cases h
    unfold ofTyped
    dsimp only
    split
    · exact Nat.le_refl _
    · exact Nat.le_trans (wordOffsetChars_le _ _) (length_dropDangling_le _)
  · cases h

namespace Completion

theorem ofValue?_toValue {c : Completion} (h : c.position ≤ 0) : ofValue? c.toValue = some c := by
  have hbound : c.position < Nat.pow 2 63 := Int.lt_of_le_of_lt h (by decide)
  exact if_pos hbound

theorem listOfValue?_toValues {cs : List Completion} (h : ∀ c ∈ cs, c.position ≤ 0) :
    listOfValue? (.list (cs.map (·.toValue))) = some cs := by
  induction cs with
  | nil => rfl
  | cons c cs ih =>
    obtain ⟨hfirst, hrest⟩ := List.forall_mem_cons.1 h
    have hlist : (cs.map (·.toValue)).mapM ofValue? = some cs := ih hrest
    rw [listOfValue?, List.map_cons, List.mapM_cons, ofValue?_toValue hfirst, hlist]
    rfl

end Completion
end Words

theorem Registry.position_nonpos {r : Registry} {line : String} {cs : List Words.Completion}
    (h : r.completions line = .ok cs) : ∀ c ∈ cs, c.position ≤ 0 := by
  unfold completions at h
  split at h
  · cases h
    nofun
  · split at h
    · cases h
    · next cursor hcursor =>
      cases h
      intro c hc
      obtain ⟨candidate, -, rfl⟩ := List.mem_map.1 hc
      have hoffset := Words.Cursor.offset_le_length hcursor
      show (cursor.offset : Int) - cursor.length ≤ 0
      omega

/-- **Completions travel through the bus unchanged**: what the completing task replies is read as the
completions that it has found. -/
theorem listOfValue?_completionReply (registry : Registry) (request : Message) :
    Words.Completion.listOfValue? (completionReply registry request).data =
      some (completionsFor registry request) := by
  refine Words.Completion.listOfValue?_toValues ?_
  unfold completionsFor
  split
  · next hcompletions => exact Registry.position_nonpos hcompletions
  · exact fun c hc => absurd hc List.not_mem_nil

end Parley
