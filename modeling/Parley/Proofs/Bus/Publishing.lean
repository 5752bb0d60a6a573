import Parley.Proofs.Bus.Conservation
import Parley.Proofs.Bus.Leftover

/-!
# What has been published

As long as the dispatcher hands nothing out, what has been published is seen from what waits, up to
the order between channels (`Agrees.perm_published`). `Publishes es b b'` says that `b'` comes of `b`
by publishing `es`, which then waits on the bus; whatever acts lead there too publish the same
(`Publishes.published_eq`).
-/

set_option autoImplicit false

namespace Parley.Bus

variable {α : Type} {b b' b'' : Bus α} {es es' : List (Event α)}

/-- Without a dispatcher all that is published is seen to wait, on its channel. -/
theorem Agrees.perm_published (h : b.Agrees) {acts : List (Act α)} (ha : .dispatch ∉ acts)
    (hb : ∀ c, Event.on c (b.run acts).backlog = Event.on c b.backlog ++ Event.on c es) :
    (published acts).Perm es := by
  apply Backend.perm_of_on
  intro c
  have hbacklog := h.backlog_run acts c
  rw [handed_of_no_dispatch ha, hb] at hbacklog
  exact List.append_cancel_left hbacklog

/-- What is held back is replayed behind the queue, and nothing is lost. -/
theorem perm_open? (backend : Backend α) (scope : Scope) :
    ((open? backend scope).queue ++ (open? backend scope).missed).Perm
      (backend.queue ++ backend.missed) :=
  Backend.perm_of_on (on_open? backend scope)

theorem perm_publish (backend : Backend α) (e : Event α) :
    ((backend.publish e).queue ++ (backend.publish e).missed).Perm
      (backend.queue ++ backend.missed ++ [e]) := by
  unfold Backend.publish
  split
  · change (backend.queue ++ [e] ++ backend.missed).Perm _
    rw [List.append_assoc, List.append_assoc]
    exact List.perm_append_comm.append_left _
  · exact .of_eq (List.append_assoc _ _ _).symm

/-- Whatever is done, only the dispatcher takes anything from what waits. -/
theorem perm_backlog_act (b : Bus α) {a : Act α} (ha : a ≠ .dispatch) :
    (b.act a).backlog.Perm (b.backlog ++ published [a]) := by
  rcases lists_cases b a with
    ⟨e, rfl⟩ | ⟨scope, rfl, hopen⟩ | ⟨e, rfl, -⟩ | ⟨hnone, -, hqueue, hmissed⟩
  · exact perm_publish b.backend e
  · refine .trans ?_ (.of_eq (List.append_nil _).symm)
    rw [backlog, hopen]
    exact perm_open? b.backend scope
  · exact absurd rfl ha
  · rw [hnone, List.append_nil, backlog, backlog, hqueue, hmissed]

/-- The bus `b'` comes of `b` without anything being handed out, and these events are published. -/
structure Publishes (es : List (Event α)) (b b' : Bus α) : Prop where
  acts : ∃ acts, b' = b.run acts ∧ .dispatch ∉ acts ∧ published acts = es
  /-- They wait to be handed out, with all that waited before. -/
  waits : b'.backlog.Perm (b.backlog ++ es)

namespace Publishes

theorem refl : Publishes [] b b :=
  ⟨⟨[], rfl, List.not_mem_nil, rfl⟩, .of_eq (List.append_nil _).symm⟩

theorem trans (h : Publishes es b b') (h' : Publishes es' b' b'') :
    Publishes (es ++ es') b b'' := by
  obtain ⟨⟨acts, rfl, hacts, rfl⟩, hwaits⟩ := h
  obtain ⟨⟨acts', rfl, hacts', rfl⟩, hwaits'⟩ := h'
  refine ⟨⟨acts ++ acts', (run_append b acts acts').symm, ?_, published_append acts acts'⟩, ?_⟩
  · rw [List.mem_append, not_or]
    exact ⟨hacts, hacts'⟩
  · rw [← List.append_assoc]
    exact hwaits'.trans (hwaits.append_right _)

theorem act (a : Act α) (ha : a ≠ .dispatch) : Publishes a.event?.toList b (b.act a) := by
  have hpublished : published [a] = a.event?.toList := by cases a <;> rfl
  refine ⟨⟨[a], rfl, ?_, hpublished⟩, hpublished ▸ perm_backlog_act b ha⟩
  rw [List.mem_singleton]
  exact ha.symm

/-- Other acts that lead to the same bus have published the same, if that is at most one event. -/
theorem published_eq (h : Publishes es b b') (hb : b.Agrees) {acts : List (Act α)}
    (hacts : b' = b.run acts) (ha : .dispatch ∉ acts) (hes : es.length ≤ 1) :
    published acts = es := by
  obtain ⟨acts', rfl, ha', rfl⟩ := h.acts
  have hperm : (published acts).Perm (published acts') := by
    refine hb.perm_published ha fun c => ?_
    have hbacklog := hb.backlog_run acts' c
    rw [handed_of_no_dispatch ha'] at hbacklog
    rw [← hacts]
    exact hbacklog.symm
  cases hpublished : published acts' with
  | nil => exact (hpublished ▸ hperm).eq_nil
  | cons e es =>
    rw [hpublished] at hes
    obtain rfl : es = [] := List.eq_nil_of_length_eq_zero (Nat.le_zero.1 (Nat.le_of_succ_le_succ hes))
    exact List.perm_singleton.1 (hpublished ▸ hperm)

/-- If all that has been published is on one channel, nothing else has been published. -/
theorem unique (h : Publishes es b b') (h' : Publishes es' b b') (hb : b.Agrees) {c : String}
    (hes : ∀ e ∈ es, e.channel = c) : es' = es := by
  obtain ⟨acts, hacts, ha, rfl⟩ := h.acts
  obtain ⟨acts', hacts', ha', rfl⟩ := h'.acts
  have hon : ∀ d, Event.on d (published acts') = Event.on d (published acts) := by
    intro d
    have hleft := hb.backlog_run acts d
    have hright := hb.backlog_run acts' d
    rw [handed_of_no_dispatch ha, ← hacts] at hleft
    rw [handed_of_no_dispatch ha', ← hacts', ← hleft] at hright
    exact List.append_cancel_left hright
  have hchannel : ∀ e ∈ published acts', e.channel = c := by
    intro e he
    have hmem : e ∈ Event.on e.channel (published acts') := List.mem_filter.2 ⟨he, by simp⟩
    rw [hon] at hmem
    exact hes e (List.mem_filter.1 hmem).1
  have hsame : ∀ {fs : List (Event α)}, (∀ e ∈ fs, e.channel = c) → Event.on c fs = fs :=
    fun hfs => List.filter_eq_self.2 fun e he => by simpa using hfs e he
  rw [← hsame hchannel, hon, hsame hes]

end Publishes

end Parley.Bus
