import Parley.Proofs.Bus.Quiet

/-!
# Channels with one listener

A channel on which nobody listens is `Parked`: what is published there is held back. A channel with
one listener is `Served`: what was published there is in the listener's mailbox or queued behind it.
The lemmas say how acts on the channel lead from one to the other; an act on another channel leaves
either as it is (`Parked.quiet`, `Served.quiet`).
-/

set_option autoImplicit false

namespace Parley.Bus

variable {α : Type} {b b' : Bus α} {c : String} {id : SubscriptionId} {es l : List (Event α)}

/-- Nobody listens on the channel alone, and `l` is held back there. -/
structure Parked (c : String) (b : Bus α) (l : List (Event α)) : Prop where
  listeners : b.under (.channel c) = []
  queue : Event.on c b.backend.queue = []
  missed : Event.on c b.backend.missed = l

/-- One subscription listens on the channel alone, with `es` in its mailbox and `l` still queued. -/
structure Served (c : String) (b : Bus α) (id : SubscriptionId) (es l : List (Event α)) : Prop where
  listeners : b.under (.channel c) = [id]
  mailbox : ∃ s, b.subscription? id = some s ∧ s.closed = false ∧ s.inbox = es.map .event
  queue : Event.on c b.backend.queue = l

theorem Parked.quiet (h : Parked c b l) (hq : Quiet c b b') : Parked c b' l :=
  ⟨hq.under.trans h.listeners, hq.queue.trans h.queue, hq.missed.trans h.missed⟩

theorem Served.quiet (h : Served c b id es l) (hq : Quiet c b b') : Served c b' id es l := by
  refine ⟨hq.under.trans h.listeners, ?_, hq.queue.trans h.queue⟩
  rw [hq.kept id (h.listeners ▸ List.mem_singleton_self id)]
  exact h.mailbox

/-- A channel is live exactly if somebody listens on it. -/
theorem Agrees.isSubscribed_iff (h : b.Agrees) (c : String) :
    b.backend.isSubscribed c = true ↔ b.under (.channel c) ≠ [] := by
  rw [← h.listed, ← Table.isListed_iff h.table, ← h.opened]
  rfl

theorem Parked.isSubscribed (h : Parked c b l) (ha : b.Agrees) :
    b.backend.isSubscribed c = false := by
  rw [← Bool.not_eq_true, ha.isSubscribed_iff, not_not]
  exact h.listeners

theorem Served.isSubscribed (h : Served c b id es l) (ha : b.Agrees) :
    b.backend.isSubscribed c = true := by
  rw [ha.isSubscribed_iff, h.listeners]
  exact List.cons_ne_nil id []

/-- With a listener nothing is held back. -/
theorem Served.missed (h : Served c b id es l) (ha : b.Agrees) :
    Event.on c b.backend.missed = [] :=
  List.filter_eq_nil_iff.2 fun e he hc => by
    have := ha.held e he
    rw [eq_of_beq hc, Backend.hears, h.isSubscribed ha, Bool.or_true] at this
    cases this

theorem Agrees.universal_iff (h : b.Agrees) :
    b.backend.universal = true ↔ b.under .universal ≠ [] := by
  rw [← h.listed, ← Table.isListed_iff h.table, ← h.opened]
  rfl

@[simp] theorem on_singleton (x : α) : Event.on c [⟨c, x⟩] = [⟨c, x⟩] := by simp [Event.on]

/-! ## Publishing -/

/-- What is published on a parked channel is held back, unless somebody listens everywhere. -/
theorem Parked.publish (h : Parked c b l) (ha : b.Agrees) (hu : b.under .universal = []) (x : α) :
    Parked c (b.publish ⟨c, x⟩) (l ++ [⟨c, x⟩]) := by
  have huniversal : b.backend.universal = false := by
    rw [← Bool.not_eq_true, ha.universal_iff, not_not]
    exact hu
  have hpub := Backend.publish_of_unheard (b := b.backend) (e := ⟨c, x⟩)
    (by rw [huniversal, h.isSubscribed ha]; rfl)
  refine ⟨h.listeners, ?_, ?_⟩
  · exact (congrArg (fun x => Event.on c (Backend.queue x)) hpub).trans h.queue
  · refine (congrArg (fun x => Event.on c (Backend.missed x)) hpub).trans ?_
    rw [Event.on_append, h.missed, on_singleton]

theorem Served.publish (h : Served c b id es l) (ha : b.Agrees) (x : α) :
    Served c (b.publish ⟨c, x⟩) id es (l ++ [⟨c, x⟩]) := by
  have hpub := Backend.publish_of_heard (b := b.backend) (e := ⟨c, x⟩)
    (by rw [h.isSubscribed ha, Bool.or_true])
  refine ⟨h.listeners, h.mailbox, ?_⟩
  refine (congrArg (fun x => Event.on c (Backend.queue x)) hpub).trans ?_
  rw [Backend.enqueue, Event.on_append, h.queue, on_singleton]

/-! ## Listening and reading -/

/-- The first listener has replayed what was held back. -/
theorem Parked.subscribe (h : Parked c b l) (ha : b.Agrees) :
    Served c (b.subscribe (.channel c)) b.nextId [] l := by
  refine ⟨?_, ⟨_, ha.subscription?_subscribe _, rfl, rfl⟩, ?_⟩
  · rw [under_append b _ _ _ _ (roster_subscribe b _), if_pos rfl, h.listeners]
    rfl
  · have hlisted : b.table.isListed (.channel c) = false := by
      rw [← Bool.not_eq_true, Table.isListed_iff ha.table, ha.listed, not_not]
      exact h.listeners
    rw [Bus.subscribe, hlisted]
    simp only [Bool.false_eq_true, if_false, open?, Backend.queue_subscribe, Event.on_append,
      h.queue, List.nil_append]
    rw [← h.missed, Event.on, List.filter_filter, Event.on]
    simp only [Bool.and_self]

/-- The next event of the channel goes to the mailbox. -/
theorem Served.dispatch (h : Served c b id es l) (ha : b.Agrees) (hc : b.connected = true)
    {e : Event α} {rest : List (Event α)} (hq : b.backend.queue = e :: rest) (he : e.channel = c) :
    ∃ l', l = e :: l' ∧ Served c b.dispatch id (es ++ [e]) l' := by
  obtain ⟨s, hs, hclosed, hinbox⟩ := h.mailbox
  have hscope : s.scope = .channel c := by
    obtain ⟨s', hs', hscope⟩ := ha.exists_subscription (h.listeners ▸ List.mem_singleton_self id)
    cases hs.symm.trans hs'
    exact hscope
  refine ⟨Event.on c rest, ?_, ?_, ⟨_, ha.subscription?_dispatch hs hc hq, hclosed, ?_⟩, ?_⟩
  · rw [← h.queue, hq, Event.on, List.filter_cons, if_pos (by rw [he, beq_self_eq_true]), Event.on]
  · rw [under, roster_dispatch]
    exact h.listeners
  · rw [hscope, hinbox, if_pos (by rw [he]; exact beq_self_eq_true c), List.map_append]
    rfl
  · rw [dispatch_cons hc hq]

theorem Served.read_nil (h : Served c b id [] l) : (b.read id).1 = .waiting := by
  obtain ⟨s, hs, hclosed, hinbox⟩ := h.mailbox
  simp [Bus.read, hs, Subscription.read, hclosed, hinbox]

/-- A read takes the oldest event from the mailbox. -/
theorem Served.read_cons {e : Event α} (h : Served c b id (e :: es) l) :
    (b.read id).1 = .event e ∧ Served c (b.read id).2 id es l := by
  obtain ⟨s, hs, hclosed, hinbox⟩ := h.mailbox
  refine ⟨by simp [Bus.read, hs, Subscription.read, hclosed, hinbox], ?_, ?_, ?_⟩
  · rw [under, roster_read]
    exact h.listeners
  · refine ⟨_, subscription?_read_self hs, ?_, ?_⟩ <;> simp [Subscription.read, hclosed, hinbox]
  · rw [backend_read]
    exact h.queue

/-- When the listener goes with nothing left to come, the channel is parked with nothing held back.
-/
theorem Served.drop (h : Served c b id es []) (ha : b.Agrees) : Parked c (b.release id) [] := by
  refine ⟨?_, ?_, ?_⟩
  · rw [under, ha.roster_release, List.filter_filter, List.map_eq_nil_iff,
      List.filter_eq_nil_iff]
    intro x hx hp
    rw [Bool.and_eq_true, bne_iff_ne] at hp
    have : x.1 ∈ b.under (.channel c) := mem_under.2 (by rw [← eq_of_beq hp.1]; exact hx)
    rw [h.listeners, List.mem_singleton] at this
    exact hp.2 this
  · rw [(release_lists b id).1]
    exact h.queue
  · rw [(release_lists b id).2]
    exact h.missed ha

end Parley.Bus
