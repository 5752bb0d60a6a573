import Parley.Proofs.Bus.Mailbox

/-!
# The order of what several channels send

On one channel events are handed out in the order of publication. Across channels that is so for
the channels that somebody hears all the time: what is published there is queued at once
(`Agrees.queue_run`). A replay brings older events behind younger ones of other channels. For a
universal subscription this happens when it is made, and only then: what waits at that moment is
handed out as it stands (`universal_in_order`).
-/

set_option autoImplicit false

namespace Parley.Bus

variable {α : Type} {b : Bus α}

/-- A channel that an existing subscription covers is heard. -/
theorem Agrees.hears_of_mem (h : b.Agrees) {x : SubscriptionId × Scope} (hx : x ∈ b.roster)
    {c : String} (hc : x.2.covers c = true) : b.backend.hears c = true := by
  refine (Backend.hears_iff _ _).2 ⟨x.2, hc, ?_⟩
  rw [h.opened, Table.isListed_iff h.table, h.listed]
  exact List.ne_nil_of_mem (mem_under.2 hx)

/-- A subscription stays until it is dropped. -/
theorem Agrees.kept_act (h : b.Agrees) {x : SubscriptionId × Scope} (hx : x ∈ b.roster) {a : Act α}
    (ha : a.drops x.1 = false) : x ∈ (b.act a).roster := by
  rw [show (b.act a).roster = _ from congrArg Prod.snd (enroll_act h a)]
  cases a with
  | subscribe scope => exact List.mem_append_left _ hx
  | drop i =>
    have hne : i ≠ x.1 := by simpa [Act.drops] using ha
    exact List.mem_filter.2 ⟨hx, bne_iff_ne.2 hne.symm⟩
  | _ => exact hx

/-! ## Channels that are heard -/

/-- One act keeps the events of heard channels in the order of publication: it queues what it
publishes there, and it replays nothing of theirs, for nothing of theirs is held back. -/
theorem Agrees.queue_act (h : b.Agrees) {p : String → Bool}
    (hp : ∀ c, p c = true → b.backend.hears c = true) (a : Act α) :
    (b.backend.queue ++ published [a]).filter (p ·.channel) =
      (b.handsOut a ++ (b.act a).backend.queue).filter (p ·.channel) := by
  have hmissed : ∀ q : Event α → Bool, (b.backend.missed.filter q).filter (p ·.channel) = [] := by
    intro q
    refine List.filter_eq_nil_iff.2 fun e he hpe => ?_
    have hn := h.held e (List.mem_of_mem_filter he)
    rw [hp _ hpe] at hn
    cases hn
  rcases lists_cases b a with
    ⟨e, rfl⟩ | ⟨scope, rfl, hopen⟩ | ⟨e, rfl, hqueue, hout, -⟩ | ⟨hnone, hout, hqueue, -⟩
  · change (b.backend.queue ++ [e]).filter _ = (b.backend.publish e).queue.filter _
    cases hh : b.backend.hears e.channel
    · have hpe : p e.channel = false := by
        rw [← Bool.not_eq_true]
        intro hpe
        rw [hp _ hpe] at hh
        cases hh
      rw [Backend.publish_of_unheard hh, List.filter_append]
      simp [hpe]
    · rw [Backend.publish_of_heard hh]
      rfl
  · change (b.backend.queue ++ []).filter _ = (b.act (.subscribe scope)).backend.queue.filter _
    rw [hopen]
    cases scope with
    | channel c =>
      rw [open?, Backend.queue_subscribe, List.filter_append, List.filter_append, hmissed]
      rfl
    | universal =>
      have hall := hmissed fun _ => true
      rw [List.filter_true] at hall
      change _ = (b.backend.queue ++ b.backend.missed).filter _
      rw [List.filter_append, List.filter_append, hall]
      rfl
  · rw [hout, hqueue]
    exact congrArg _ (List.append_nil _)
  · rw [hnone, hout, hqueue, List.append_nil, List.nil_append]

/-- **Channels that are heard throughout**: their events are handed out in the order of publication,
whatever the channel, and what is not handed out is queued in that order. -/
theorem Agrees.queue_run (h : b.Agrees) {p : String → Bool} {acts : List (Act α)}
    (hp : ∀ c, p c = true →
      ∃ x ∈ b.roster, x.2.covers c = true ∧ ∀ a ∈ acts, a.drops x.1 = false) :
    (b.backend.queue ++ published acts).filter (p ·.channel) =
      (b.handed acts ++ (b.run acts).backend.queue).filter (p ·.channel) := by
  induction acts generalizing b with
  | nil =>
    change (_ ++ []).filter _ = ([] ++ _).filter _
    rw [List.append_nil]
    rfl
  | cons a acts ih =>
    have hhears : ∀ c, p c = true → b.backend.hears c = true := fun c hc => by
      obtain ⟨x, hx, hcov, -⟩ := hp c hc
      exact h.hears_of_mem hx hcov
    have hrest : ∀ c, p c = true →
        ∃ x ∈ (b.act a).roster, x.2.covers c = true ∧ ∀ a ∈ acts, a.drops x.1 = false :=
      fun c hc => by
        obtain ⟨x, hx, hcov, hkept⟩ := hp c hc
        exact ⟨x, h.kept_act hx (hkept a List.mem_cons_self), hcov, fun y hy =>
          hkept y (List.mem_cons_of_mem _ hy)⟩
    rw [← List.singleton_append, published_append, ← List.append_assoc, List.filter_append,
      h.queue_act hhears, List.filter_append, List.append_assoc, ← List.filter_append,
      ih (h.act a) hrest, ← List.filter_append, ← List.append_assoc]
    rfl

/-! ## What is held back -/

/-- What is held back after an act was held back before or is published by it, in this order. -/
theorem missed_act_sublist (b : Bus α) (a : Act α) :
    (b.act a).backend.missed.Sublist (b.backend.missed ++ published [a]) := by
  rcases lists_cases b a with
    ⟨e, rfl⟩ | ⟨scope, rfl, hopen⟩ | ⟨e, rfl, -, -, hmissed⟩ | ⟨hnone, -, -, hmissed⟩
  · change (b.backend.publish e).missed.Sublist (b.backend.missed ++ [e])
    cases hh : b.backend.hears e.channel
    · rw [Backend.publish_of_unheard hh]
    · rw [Backend.publish_of_heard hh]
      exact List.sublist_append_left _ _
  · change (b.act (.subscribe scope)).backend.missed.Sublist (b.backend.missed ++ [])
    rw [hopen, List.append_nil]
    cases scope with
    | channel c => exact List.filter_sublist
    | universal => exact List.nil_sublist _
  · rw [hmissed]
    exact List.sublist_append_left _ _
  · rw [hmissed, hnone, List.append_nil]

/-- What is held back is held in the order of publication. -/
theorem missed_run_sublist (b : Bus α) (acts : List (Act α)) :
    (b.run acts).backend.missed.Sublist (b.backend.missed ++ published acts) := by
  induction acts generalizing b with
  | nil => exact (List.append_nil _).symm ▸ List.Sublist.refl _
  | cons a acts ih =>
    rw [run_cons, ← List.singleton_append, published_append, ← List.append_assoc]
    exact (ih (b.act a)).trans ((missed_act_sublist b a).append (List.Sublist.refl _))

/-! ## Universal subscriptions -/

/-- A new universal subscription has the whole backlog queued. -/
theorem Agrees.queue_subscribe_universal (h : b.Agrees) :
    (b.subscribe .universal).backend.queue = b.backlog := by
  change (if b.table.isListed .universal then b.backend else _).queue = _
  split
  · next hl =>
    -- somebody hears everything already, so nothing is held back
    have hmissed : b.backend.missed = [] := by
      rw [List.eq_nil_iff_forall_not_mem]
      intro e he
      have hn := h.held e he
      rw [Backend.hears, show b.backend.universal = true from (h.opened .universal).trans hl] at hn
      cases hn
    rw [backlog, hmissed, List.append_nil]
  · rfl

/-- **What a universal subscription is mailed**: what waited when it was made, as it stood in the
queue or was held back, and behind that what is published while it exists, in this order; what it
has not been mailed of this is still queued. -/
theorem mail_universal (before rest : List (Act α)) :
    let b : Bus α := run {} before
    let kept := rest.takeWhile (!·.drops b.nextId)
    Delivery.events (b.mail b.nextId (.subscribe .universal :: rest)) ++
      (b.run (.subscribe .universal :: kept)).backend.queue = b.backlog ++ published kept := by
  intro b kept
  have h : b.Agrees := agrees_run before
  have hmail : Delivery.events (b.mail b.nextId (.subscribe .universal :: rest)) =
      (b.subscribe .universal).handed kept := by
    refine ((h.subscribe .universal).events_mail (h.subscription?_subscribe .universal) rest).trans ?_
    exact List.filter_eq_self.2 fun _ _ => rfl
  have hheard : ∀ c, (fun _ => true) c = true → ∃ x ∈ (b.subscribe .universal).roster,
      x.2.covers c = true ∧ ∀ a ∈ kept, a.drops x.1 = false := fun c _ => by
    refine ⟨(b.nextId, .universal), ?_, rfl, fun a ha => ?_⟩
    · rw [roster_subscribe]
      exact List.mem_append_right _ List.mem_cons_self
    · simpa using List.all_eq_true.1 List.all_takeWhile a ha
  have horder := (h.subscribe .universal).queue_run hheard
  rw [List.filter_true, List.filter_true, h.queue_subscribe_universal] at horder
  rw [hmail, run_cons]
  exact horder.symm

/-- The numbers of the events rise. -/
def Rising (num : Event α → Nat) (es : List (Event α)) : Prop := es.Pairwise (num · < num ·)

instance (num : Event α → Nat) (es : List (Event α)) : Decidable (Rising num es) :=
  inferInstanceAs (Decidable (es.Pairwise _))

theorem Rising.append {num : Event α → Nat} {xs ys : List (Event α)} :
    Rising num (xs ++ ys) ↔
      Rising num xs ∧ Rising num ys ∧ ∀ x ∈ xs, ∀ y ∈ ys, num x < num y := List.pairwise_append

theorem mem_published_of_backlog {acts : List (Act α)} {e : Event α}
    (he : e ∈ (run {} acts : Bus α).backlog) : e ∈ published acts :=
  (agrees_empty.carries_run (carries_empty (· ∈ published acts)) fun _ hx => hx).backlog e he

/-- **Universal subscriptions and the order of publication.** Let events be numbered as they are
published, across all channels. A universal subscription is mailed what waited when it was made, as
that stood, and then everything published while it exists. So its mail is in order exactly if what
it was mailed of the backlog is, and the backlog is in order exactly if the queue is and no event in
it is younger than one held back. -/
theorem universal_in_order (num : Event α → Nat) (before rest : List (Act α))
    (hnum : Rising num (published (before ++ .subscribe .universal :: rest))) :
    let b : Bus α := run {} before
    let kept := rest.takeWhile (!·.drops b.nextId)
    let mail := Delivery.events (b.mail b.nextId (.subscribe .universal :: rest))
    mail ++ (b.run (.subscribe .universal :: kept)).backend.queue = b.backlog ++ published kept ∧
      (Rising num mail ↔ Rising num (b.backlog.take mail.length)) ∧
      (Rising num b.backlog ↔ Rising num b.backend.queue ∧
        ∀ x ∈ b.backend.queue, ∀ y ∈ b.backend.missed, num x < num y) := by
  intro b kept mail
  have hmail : mail ++ _ = b.backlog ++ published kept := mail_universal before rest
  rw [published_append, Rising.append] at hnum
  obtain ⟨hbefore, hrest, hcross⟩ := hnum
  have hkept : (published kept).Sublist (published (.subscribe .universal :: rest)) :=
    (List.takeWhile_sublist _).filterMap _
  -- the mail is a part of the backlog and then a part of what was published afterwards
  have hsplit : mail =
      b.backlog.take mail.length ++ (published kept).take (mail.length - b.backlog.length) := by
    rw [← List.take_append, ← hmail, List.take_left]
  refine ⟨hmail, ⟨fun hr => ?_, fun hr => ?_⟩, ?_⟩
  · rw [hsplit, Rising.append] at hr
    exact hr.1
  · rw [hsplit, Rising.append]
    refine ⟨hr, hrest.sublist ((List.take_sublist _ _).trans hkept), fun x hx y hy => ?_⟩
    exact hcross x (mem_published_of_backlog (List.mem_of_mem_take hx)) y
      (hkept.subset (List.mem_of_mem_take hy))
  · have hmissed : Rising num b.backend.missed := hbefore.sublist (missed_run_sublist {} before)
    rw [backlog, Rising.append]
    exact ⟨fun hr => ⟨hr.1, hr.2.2⟩, fun hr => ⟨hr.1, hmissed, hr.2⟩⟩

/-- Two events from before the subscription and one from after it. -/
theorem universal_in_order_replayed :
    let event (c : String) (n : Nat) : Event Nat := { channel := c, payload := n }
    let before : List (Act Nat) := [.publish (event "a" 1), .publish (event "b" 2)]
    let rest : List (Act Nat) := [.connect true, .dispatch, .publish (event "a" 3), .dispatch,
      .dispatch]
    let mail := Delivery.events ((run {} before).mail 0 (.subscribe .universal :: rest))
    Rising (·.payload) (published (before ++ .subscribe .universal :: rest)) ∧
      mail.map (·.payload) = [1, 2, 3] ∧ Rising (·.payload) mail := by
  intro event before rest mail
  have hnum : Rising (·.payload) (published (before ++ .subscribe .universal :: rest)) := by decide
  refine ⟨hnum, by decide, ?_⟩
  exact (universal_in_order (·.payload) before rest hnum).2.1.2 (by decide)

/-- **A replay is overtaken**: an event that nobody hears is held back, a younger one on another
channel that has a listener is queued, and the universal subscription is mailed the younger one
first. -/
theorem replay_overtaken :
    let event (c : String) (n : Nat) : Event Nat := { channel := c, payload := n }
    let before : List (Act Nat) :=
      [.publish (event "a" 1), .subscribe (.channel "b"), .publish (event "b" 2)]
    let rest : List (Act Nat) := [.connect true, .dispatch, .dispatch]
    let mail := Delivery.events ((run {} before).mail 1 (.subscribe .universal :: rest))
    Rising (·.payload) (published (before ++ .subscribe .universal :: rest)) ∧
      mail.map (·.payload) = [2, 1] ∧ ¬ Rising (·.payload) mail := by decide

end Parley.Bus
