import Mathlib.Data.List.Induction
import Parley.Proofs.Bus.Conservation

/-!
# A shelf for every channel

The backend holds events back in one list. The same can be kept as `Shelves`: one shelf for every
channel that misses something, the shelves in no particular order, and the events numbered as they
are put there. A channel's own shelf is what a subscription to the channel replays, and all shelves
together, sorted by number, are what a universal subscription replays (`Shelves.Kept.replays`): the
numbers are all it takes to find the order of publication again. So a backend that keeps shelves
conserves events as one that keeps a list (`Backend.conserves_events`).
-/

set_option autoImplicit false

namespace Parley

/-- The events held back, on a shelf for each channel. -/
structure Shelves (α : Type) where
  /-- The channels that miss something, each with its numbered events. -/
  shelves : List (String × List (Nat × Event α)) := []
  /-- The number of the next event that is put on a shelf. -/
  next : Nat := 0

namespace Shelves

variable {α : Type}

/-- The numbered events on the shelf of a channel, oldest first. -/
def shelf (s : Shelves α) (c : String) : List (Nat × Event α) := (s.shelves.lookup c).getD []

/-- The numbered events of all shelves, oldest first. -/
def sorted (s : Shelves α) : List (Nat × Event α) :=
  (s.shelves.flatMap (·.2)).mergeSort fun x y => decide (x.1 ≤ y.1)

/-- Puts an event on the shelf of its channel. -/
def push (s : Shelves α) (e : Event α) : Shelves α where
  shelves :=
    if s.shelves.any (·.1 == e.channel) then
      s.shelves.map fun x => if x.1 == e.channel then (x.1, x.2 ++ [(s.next, e)]) else x
    else s.shelves ++ [(e.channel, [(s.next, e)])]
  next := s.next + 1

/-- Takes the shelf of a channel away. -/
def clear (s : Shelves α) (c : String) : Shelves α :=
  { s with shelves := s.shelves.filter (·.1 != c) }

def clearAll (s : Shelves α) : Shelves α := { s with shelves := [] }

/-- The shelves after a call of the backend `b`. -/
def after (b : Backend α) (s : Shelves α) : Backend.Call α → Shelves α
  | .subscribe c => s.clear c
  | .universalSubscribe => s.clearAll
  | .publish e => if b.hears e.channel then s else s.push e
  | _ => s

/-- The shelves that a backend may have after the calls: their order may change at any time. -/
inductive Kept : List (Backend.Call α) → Shelves α → Prop
  | start : Kept [] {}
  | call {calls : List (Backend.Call α)} {s : Shelves α} (h : Kept calls s) (a : Backend.Call α) :
    Kept (calls ++ [a]) (s.after (Backend.run {} calls) a)
  | shuffle {calls : List (Backend.Call α)} {s s' : Shelves α} (h : Kept calls s)
    (hp : s'.shelves.Perm s.shelves) (hn : s'.next = s.next) : Kept calls s'

/-- The shelves hold the numbered events `l`: their numbers rise, and each shelf has those of its
channel. -/
structure Holds (s : Shelves α) (l : List (Nat × Event α)) : Prop where
  rising : l.Pairwise (·.1 < ·.1)
  below : ∀ x ∈ l, x.1 < s.next
  keys : (s.shelves.map (·.1)).Nodup
  shelf : ∀ x ∈ s.shelves, x.2 = l.filter (·.2.channel == x.1)
  covered : ∀ x ∈ l, x.2.channel ∈ s.shelves.map (·.1)

variable {s s' : Shelves α} {l : List (Nat × Event α)}

theorem holds_empty : Holds ({} : Shelves α) [] :=
  ⟨.nil, nofun, List.nodup_nil, nofun, nofun⟩

theorem Holds.perm (h : s.Holds l) (hp : s'.shelves.Perm s.shelves) (hn : s'.next = s.next) :
    s'.Holds l where
  rising := h.rising
  below := hn ▸ h.below
  keys := (hp.map _).nodup_iff.2 h.keys
  shelf x hx := h.shelf x (hp.mem_iff.1 hx)
  covered x hx := (hp.map _).mem_iff.2 (h.covered x hx)

theorem Holds.push (h : s.Holds l) (e : Event α) : (s.push e).Holds (l ++ [(s.next, e)]) := by
  have hfilter : ∀ c, (l ++ [(s.next, e)]).filter (·.2.channel == c) =
      l.filter (·.2.channel == c) ++ if e.channel == c then [(s.next, e)] else [] := fun c => by
    rw [List.filter_append, List.filter_singleton]
    cases e.channel == c <;> rfl
  have hkeys : (s.push e).shelves.map (·.1) =
      if s.shelves.any (·.1 == e.channel) then s.shelves.map (·.1)
      else s.shelves.map (·.1) ++ [e.channel] := by
    simp only [Shelves.push]
    split
    · rw [List.map_map]
      refine List.map_congr_left fun x _ => ?_
      simp only [Function.comp]
      split <;> rfl
    · exact List.map_append
  have hany : s.shelves.any (·.1 == e.channel) = true ↔ e.channel ∈ s.shelves.map (·.1) := by
    simp [List.any_eq_true]
  refine ⟨?_, fun x hx => ?_, ?_, fun x hx => ?_, fun x hx => ?_⟩
  · rw [List.pairwise_append]
    refine ⟨h.rising, List.pairwise_singleton _ _, fun x hx y hy => ?_⟩
    rw [List.mem_singleton.1 hy]
    exact h.below x hx
  · rcases List.mem_append.1 hx with hx | hx
    · exact Nat.lt_succ_of_lt (h.below x hx)
    · rw [List.mem_singleton.1 hx]
      exact Nat.lt_succ_self _
  · rw [hkeys]
    split
    · exact h.keys
    · next hn =>
      rw [List.nodup_append]
      refine ⟨h.keys, List.nodup_singleton _, fun c hc d hd => ?_⟩
      rintro rfl
      exact hn (hany.2 (List.mem_singleton.1 hd ▸ hc))
  · rw [hfilter]
    simp only [Shelves.push] at hx
    split at hx
    · obtain ⟨y, hy, rfl⟩ := List.mem_map.1 hx
      by_cases hc : y.1 = e.channel
      · simp only [hc, beq_self_eq_true, if_true]
        rw [h.shelf y hy, hc]
      · have hne : (e.channel == y.1) = false := by simpa using Ne.symm hc
        simp only [beq_eq_false_iff_ne.2 hc, hne, Bool.false_eq_true, if_false, List.append_nil]
        exact h.shelf y hy
    · next hn =>
      rcases List.mem_append.1 hx with hx | hx
      · have hne : (e.channel == x.1) = false := by
          rw [beq_eq_false_iff_ne]
          intro hc
          exact hn (hany.2 (hc ▸ List.mem_map_of_mem hx))
        rw [hne, if_neg Bool.false_ne_true, List.append_nil]
        exact h.shelf x hx
      · -- a new shelf: nothing of its channel was held before
        obtain rfl := List.mem_singleton.1 hx
        have hnone : l.filter (·.2.channel == e.channel) = [] :=
          List.filter_eq_nil_iff.2 fun y hy hc => hn (hany.2 (eq_of_beq hc ▸ h.covered y hy))
        simp [hnone]
  · rw [hkeys]
    rcases List.mem_append.1 hx with hx | hx
    · have := h.covered x hx
      split
      · exact this
      · exact List.mem_append_left _ this
    · rw [List.mem_singleton.1 hx]
      split
      · next hm => exact hany.1 hm
      · exact List.mem_append_right _ List.mem_cons_self

theorem Holds.clear (h : s.Holds l) (c : String) :
    (s.clear c).Holds (l.filter (·.2.channel != c)) where
  rising := h.rising.sublist List.filter_sublist
  below x hx := h.below x (List.mem_of_mem_filter hx)
  keys := h.keys.sublist (List.filter_sublist.map _)
  shelf x hx := by
    obtain ⟨hx, hc⟩ := List.mem_filter.1 hx
    rw [h.shelf x hx, List.filter_filter]
    refine List.filter_congr fun y _ => ?_
    rw [eq_comm, Bool.and_eq_left_iff_imp]
    intro hy
    rw [eq_of_beq hy]
    exact hc
  covered x hx := by
    obtain ⟨hx, hc⟩ := List.mem_filter.1 hx
    obtain ⟨y, hy, hyc⟩ := List.mem_map.1 (h.covered x hx)
    exact List.mem_map.2 ⟨y, List.mem_filter.2 ⟨hy, by rw [hyc]; exact hc⟩, hyc⟩

theorem holds_clearAll (s : Shelves α) : s.clearAll.Holds [] :=
  ⟨.nil, nofun, List.nodup_nil, nofun, nofun⟩

/-! ## What is found on the shelves -/

theorem Holds.shelf_eq (h : s.Holds l) (c : String) :
    s.shelf c = l.filter (·.2.channel == c) := by
  rw [Shelves.shelf]
  cases hl : s.shelves.lookup c with
  | some v => exact h.shelf _ (mem_of_lookup hl)
  | none =>
    refine (List.filter_eq_nil_iff.2 fun x hx hc => ?_).symm
    obtain ⟨v, hv⟩ := exists_lookup_of_mem (eq_of_beq hc ▸ h.covered x hx)
    cases hl.symm.trans hv

theorem Holds.perm_flatMap (h : s.Holds l) : (s.shelves.flatMap (·.2)).Perm l := by
  have hnodup : l.Nodup := h.rising.imp fun {x y} hlt => by
    rintro rfl
    exact Nat.lt_irrefl _ hlt
  rw [List.perm_ext_iff_of_nodup _ hnodup]
  · intro x
    rw [List.mem_flatMap]
    constructor
    · rintro ⟨y, hy, hx⟩
      rw [h.shelf y hy] at hx
      exact List.mem_of_mem_filter hx
    · intro hx
      obtain ⟨y, hy, hc⟩ := List.mem_map.1 (h.covered x hx)
      refine ⟨y, hy, ?_⟩
      rw [h.shelf y hy]
      exact List.mem_filter.2 ⟨hx, beq_iff_eq.2 hc.symm⟩
  · rw [List.nodup_flatMap]
    refine ⟨fun y hy => h.shelf y hy ▸ hnodup.filter _, ?_⟩
    refine (List.pairwise_map.1 h.keys).imp_of_mem fun {y z} hy hz hne => ?_
    intro x hxy hxz
    simp only [h.shelf y hy, h.shelf z hz] at hxy hxz
    exact hne ((eq_of_beq (List.mem_filter.1 hxy).2).symm.trans
      (eq_of_beq (List.mem_filter.1 hxz).2))

/-- Sorting the shelves, in whichever order they come, gives the events in the order in which they
were put there. -/
theorem Holds.sorted_eq (h : s.Holds l) : s.sorted = l := by
  have hperm : s.sorted.Perm l := (List.mergeSort_perm _ _).trans h.perm_flatMap
  have hsorted : s.sorted.Pairwise fun x y => x.1 ≤ y.1 := by
    refine (List.pairwise_mergeSort (fun x y z hxy hyz => ?_) (fun x y => ?_) _).imp
      fun hxy => of_decide_eq_true hxy
    · exact decide_eq_true (Nat.le_trans (of_decide_eq_true hxy) (of_decide_eq_true hyz))
    · rw [Bool.or_eq_true, decide_eq_true_iff, decide_eq_true_iff]
      exact Nat.le_total _ _
  have hnumbers : (l.map (·.1)).Nodup := by
    rw [List.Nodup, List.pairwise_map]
    exact h.rising.imp Nat.ne_of_lt
  exact hperm.eq_of_pairwise (fun x y hx hy hxy hyx =>
    List.inj_on_of_nodup_map hnumbers (hperm.mem_iff.1 hx) hy (Nat.le_antisymm hxy hyx)) hsorted
    (h.rising.imp Nat.le_of_lt)

/-! ## Along the calls -/

theorem Kept.holds {calls : List (Backend.Call α)} (h : Kept calls s) :
    ∃ l, s.Holds l ∧ l.map (·.2) = (Backend.run {} calls).missed := by
  induction h with
  | start => exact ⟨[], holds_empty, rfl⟩
  | shuffle _ hp hn ih =>
    obtain ⟨l, hl, hm⟩ := ih
    exact ⟨l, hl.perm hp hn, hm⟩
  | @call calls s _ a ih =>
    obtain ⟨l, hl, hm⟩ := ih
    have hrun : Backend.run {} (calls ++ [a]) = (Backend.run ({} : Backend α) calls).call a :=
      List.foldl_append
    rw [hrun]
    generalize Backend.run ({} : Backend α) calls = b at hm
    cases a with
    | subscribe c =>
      refine ⟨_, hl.clear c, ?_⟩
      change _ = (b.subscribe c).missed
      rw [Backend.missed_subscribe, ← hm, List.filter_map]
      rfl
    | universalSubscribe => exact ⟨[], holds_clearAll s, rfl⟩
    | publish e =>
      change ∃ l, (if b.hears e.channel then s else s.push e).Holds l ∧
        l.map (·.2) = (b.publish e).missed
      cases hh : b.hears e.channel
      · refine ⟨_, hl.push e, ?_⟩
        rw [Backend.publish_of_unheard hh, List.map_append, hm]
        rfl
      · refine ⟨l, hl, ?_⟩
        rw [Backend.publish_of_heard hh]
        exact hm
    | unsubscribe c =>
      exact ⟨l, hl, hm.trans (b.call_shut (a := .unsubscribe c) (.inr ⟨c, rfl⟩)).2.1.symm⟩
    | universalUnsubscribe =>
      exact ⟨l, hl, hm.trans (b.call_shut (a := .universalUnsubscribe) (.inl rfl)).2.1.symm⟩
    | next => exact ⟨l, hl, by rw [Backend.call_next]; exact hm⟩
    | taskDone => exact ⟨l, hl, hm⟩

/-- After all calls there are shelves. -/
theorem exists_kept (calls : List (Backend.Call α)) : ∃ s, Kept calls s := by
  induction calls using List.reverseRecOn with
  | nil => exact ⟨{}, .start⟩
  | append_singleton calls a ih =>
    obtain ⟨s, hs⟩ := ih
    exact ⟨_, hs.call a⟩

/-- **One list or many shelves**: after any calls, and in whatever order the shelves then are, a
channel's shelf has as many events as the backend holds back there, it is what a subscription to the
channel replays, and all shelves sorted by number are what a universal subscription replays. -/
theorem Kept.replays {calls : List (Backend.Call α)} (h : Kept calls s) :
    let b : Backend α := Backend.run {} calls
    (∀ c, b.bufferedCount c = (s.shelf c).length ∧
      (b.subscribe c).queue = b.queue ++ (s.shelf c).map (·.2)) ∧
    b.universalSubscribe.queue = b.queue ++ s.sorted.map (·.2) := by
  intro b
  obtain ⟨l, hl, hm⟩ := h.holds
  have hon : ∀ c, (s.shelf c).map (·.2) = Event.on c b.missed := fun c => by
    rw [hl.shelf_eq, Event.on, ← hm, List.filter_map]
    rfl
  refine ⟨fun c => ⟨?_, ?_⟩, ?_⟩
  · rw [Backend.bufferedCount_eq, ← hon, List.length_map]
  · rw [hon]
    rfl
  · rw [hl.sorted_eq, hm]
    rfl

end Shelves

namespace Backend

/-- **The backend conserves events.** After any calls, refused ones included: on every channel the
published events are, in this order, those queued so far (given out or not) and those held back,
and every published event is in exactly one of the three places, once. A channel that is live, and
with the universal flag every channel, holds nothing back. Held back are the events that nobody has
heard since their publication, in the order of publication; a universal subscription queues them all,
and a subscription to one channel leaves those of every other alone. Only an unsubscription is
refused, where there is nothing to take back, and then nothing changes.

It is the same if the events are held back on numbered shelves (`Shelves`), one for each channel: a
shelf has what a subscription to its channel queues, and all shelves sorted by number are what a
universal subscription queues. -/
theorem conserves_events {α : Type} (calls : List (Call α)) :
    let b : Backend α := run {} calls
    (∀ c, Event.on c (published calls) =
      Event.on c (given {} calls ++ b.queue) ++ Event.on c b.missed) ∧
    (published calls).Perm (given {} calls ++ b.queue ++ b.missed) ∧
    (∀ c, b.universal = true ∨ b.isSubscribed c = true → b.bufferedCount c = 0) ∧
    b.missed = unheardOf {} calls ∧
    (b.universalSubscribe.queue = b.queue ++ unheardOf {} calls ∧
      b.universalSubscribe.missed = []) ∧
    (∀ c, (b.subscribe c).queue = b.queue ++ Event.on c b.missed ∧
      ∀ d, d ≠ c → Event.on d (b.subscribe c).missed = Event.on d b.missed) ∧
    (∀ a e, b.outcome a = .error e ↔
      (∃ c, a = .unsubscribe c ∧ b.isSubscribed c = false ∧ e = .notSubscribed c) ∨
        a = .universalUnsubscribe ∧ b.universal = false ∧ e = .notSubscribed "<universal>") ∧
    (∀ a e, b.outcome a = .error e → b.call a = b) ∧
    (∃ s, Shelves.Kept calls s) ∧
    ∀ s, Shelves.Kept calls s →
      (∀ c, b.bufferedCount c = (s.shelf c).length ∧
        (b.subscribe c).queue = b.queue ++ (s.shelf c).map (·.2)) ∧
      b.universalSubscribe.queue = b.queue ++ s.sorted.map (·.2) := by
  intro b
  have hsound : b.Sound := sound_empty.run calls
  have hmissed : b.missed = unheardOf {} calls := sound_empty.missed_run calls
  have hon : ∀ c, Event.on c (published calls) =
      Event.on c (given {} calls ++ b.queue ++ b.missed) := fun c => by
    rw [List.append_assoc, Event.on_append]
    exact sound_empty.on_run calls c
  refine ⟨fun c => ?_, perm_of_on hon, fun c hc => ?_, hmissed, ⟨?_, rfl⟩, fun c => ⟨rfl, ?_⟩,
    fun a e => outcome_eq_error, fun a e => call_of_error, Shelves.exists_kept calls,
    fun s hs => hs.replays⟩
  · rw [hon, Event.on_append]
  · rw [bufferedCount_eq, hsound.on_missed, List.length_nil]
    exact Bool.or_eq_true_iff.2 hc
  · rw [← hmissed]
    rfl
  · intro d hd
    rw [missed_subscribe, Event.on, Event.on, List.filter_filter]
    refine List.filter_congr fun e _ => ?_
    rw [Bool.and_eq_left_iff_imp, beq_iff_eq, bne_iff_ne]
    rintro rfl
    exact hd

end Backend
end Parley
