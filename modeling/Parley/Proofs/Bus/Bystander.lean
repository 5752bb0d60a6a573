import Parley.Proofs.Bus.Leftover
import Parley.Proofs.Bus.Order

/-!
# A reader and the others

What one party reads is its own affair: the others put deliveries behind what lies in its mailbox,
and nothing else (`Agrees.delivered`); a party that minds its own subscriptions does not even do
that (`Conduct.mailbox`). `Tracks` keeps account of a reader that has not come to the mark of the
end: what it has read and what lies in its mailbox is what has been handed out on its channel. Every
act of the others keeps the account (`Tracks.act`), and so do the reader's own (`Tracks.read`).
-/

set_option autoImplicit false

namespace Parley

/-! ## Ahead of the end -/

namespace Delivery

variable {α : Type} {ds ds' : List (Delivery α)}

/-- The events that lie in front of the mark of the end. -/
def ahead : List (Delivery α) → List (Event α)
  | [] => []
  | .event e :: ds => e :: ahead ds
  | .closed :: _ => []

theorem ahead_append_of_mem (h : .closed ∈ ds) (ds' : List (Delivery α)) :
    ahead (ds ++ ds') = ahead ds := by
  induction ds with
  | nil => exact absurd h List.not_mem_nil
  | cons d ds ih =>
    cases d with
    | event e => exact congrArg (e :: ·) (ih ((List.mem_cons.1 h).resolve_left nofun))
    | closed => rfl

theorem ahead_append_of_not_mem (h : .closed ∉ ds) (ds' : List (Delivery α)) :
    ahead (ds ++ ds') = events ds ++ ahead ds' := by
  induction ds with
  | nil => rfl
  | cons d ds ih =>
    rw [List.mem_cons, not_or] at h
    cases d with
    | event e => exact congrArg (e :: ·) (ih h.2)
    | closed => exact absurd rfl h.1

end Delivery

namespace Bus

variable {α : Type} {b b' : Bus α}

/-! ## What the others do to a mailbox -/

/-- The act takes nothing out of the mailbox. -/
def Act.Avoids (id : SubscriptionId) (a : Act α) : Prop := a ≠ .read id ∧ a ≠ .drop id

theorem Act.Avoids.drops {id : SubscriptionId} {a : Act α} (h : a.Avoids id) :
    a.drops id = false := by
  rw [← Bool.not_eq_true]
  exact fun hd => h.2 (Act.eq_drop hd)

/-- **What the others put into a mailbox**: the event that they hand out, if it is covered, and the
mark of the end when they close the bus. -/
theorem Agrees.delivered (h : b.Agrees) {id : SubscriptionId} {s : Subscription α}
    (hs : b.subscription? id = some s) {a : Act α} (ha : a.Avoids id) :
    ∃ ds, (b.act a).subscription? id = some { s with inbox := s.inbox ++ ds } ∧
      Delivery.events ds = (b.handsOut a).filter (s.scope.covers ·.channel) ∧
      (.closed ∈ ds ↔ a = .closeAll) := by
  obtain ⟨ds, hds⟩ := (h.subscription?_step hs ha.drops).resolve_left fun hread => ha.1 hread.1
  have hevents : Delivery.events ds = (b.handsOut a).filter (s.scope.covers ·.channel) := by
    obtain ⟨s', hs', -, hall⟩ := h.subscription?_act hs ha.drops
    rw [hds] at hs'
    cases hs'
    have hnone : b.takenBy id a = [] := by
      cases a with
      | read i => exact if_neg fun hi => ha.1 (congrArg Act.read hi.1)
      | drop i => exact if_neg fun hi => ha.2 (congrArg Act.drop hi)
      | _ => rfl
    rw [hnone, List.nil_append, Delivery.events_append] at hall
    exact List.append_cancel_left hall
  refine ⟨ds, hds, hevents, fun hmark => ?_, fun hclose => ?_⟩
  · -- a dispatch puts events there only, and every other act puts nothing there
    by_contra hne
    by_cases hd : a = .dispatch
    · subst hd
      refine h.not_closed_dispatch id ?_
      have hinbox : b.dispatch.inbox id = _ := inbox_of_subscription? hds
      rw [arrivals, inbox_of_subscription? hs, hinbox, List.drop_left]
      exact hmark
    · have hone : ∀ x ∈ [a], x ≠ .dispatch ∧ x ≠ .closeAll := fun x hx =>
        List.mem_singleton.1 hx ▸ ⟨hd, hne⟩
      have hlen := length_inbox_le (b := b) id hone
      rw [run_cons, run_nil, inbox_of_subscription? hs, inbox_of_subscription? hds,
        List.length_append] at hlen
      rw [List.eq_nil_of_length_eq_zero (l := ds) (by omega)] at hmark
      exact List.not_mem_nil hmark
  · subst hclose
    rw [Bus.act, subscription?_closeAll hs] at hds
    have hinbox := congrArg Subscription.inbox (Option.some.inj hds)
    rw [← List.append_cancel_left hinbox]
    exact List.mem_replicate.2 ⟨Nat.pos_iff_ne_zero.1 (h.count_all_pos hs), rfl⟩

/-- Whoever neither reads nor drops a subscription, nor hands out or closes, leaves it as it is. -/
theorem Agrees.subscription?_kept (h : b.Agrees) {id : SubscriptionId} {s : Subscription α}
    (hs : b.subscription? id = some s) {acts : List (Act α)}
    (ha : ∀ a ∈ acts, a.Silent ∧ a.Avoids id) : (b.run acts).subscription? id = some s := by
  induction acts generalizing b with
  | nil => exact hs
  | cons a acts ih =>
    obtain ⟨⟨hdispatch, hclose⟩, havoids⟩ := ha a List.mem_cons_self
    obtain ⟨ds, hds, hevents, hmark⟩ := h.delivered hs havoids
    have hnone : ds = [] := by
      rw [List.eq_nil_iff_forall_not_mem]
      intro d hd
      cases d with
      | closed => exact hclose (hmark.1 hd)
      | event e =>
        have he : e ∈ Delivery.events ds := List.mem_filterMap.2 ⟨_, hd, rfl⟩
        rw [hevents] at he
        have hout : b.handsOut a = [] := by
          cases a with
          | dispatch => exact absurd rfl hdispatch
          | _ => rfl
        rw [hout] at he
        exact List.not_mem_nil he
    rw [hnone, List.append_nil] at hds
    exact ih (h.act a) hds fun x hx => ha x (List.mem_cons_of_mem _ hx)

/-! ## A party that minds its own subscriptions -/

theorem subscription?_subscribe_of_ne (b : Bus α) (scope : Scope) {id : SubscriptionId}
    (hid : b.nextId ≠ id) : (b.subscribe scope).subscription? id = b.subscription? id := by
  rw [subscription?, Bus.subscribe, List.find?_append,
    List.find?_cons_of_neg (by simpa using hid), List.find?_nil, Option.or_none]
  rfl

/-- The mailboxes that are not the party's stay as they are, and what it comes to hold is new. -/
structure Minds (held : List SubscriptionId) (b : Bus α) (held' : List SubscriptionId)
    (b' : Bus α) : Prop where
  mailbox : ∀ id, id < b.nextId → id ∉ held → b'.subscription? id = b.subscription? id
  fresh : ∀ i ∈ held', i ∈ held ∨ b.nextId ≤ i

namespace Conduct

variable {held held' : List SubscriptionId}

theorem fresh (hb : b.Agrees) (h : Conduct held b held' b') {i : SubscriptionId} (hi : i ∈ held') :
    i ∈ held ∨ b.nextId ≤ i := by
  induction h generalizing i with
  | rest => exact .inl hi
  | publish _ _ ih => exact ih hb hi
  | subscribe h scope hids ih =>
    rcases (hids i).1 hi with hi | rfl
    · exact ih hb hi
    · exact .inr (h.nextId hb)
  | read _ _ ih => exact ih hb hi
  | drop _ _ hsub _ ih => exact ih hb (hsub i hi)

theorem foreign (hb : b.Agrees) (h : Conduct held b held' b') {i id : SubscriptionId}
    (hi : i ∈ held') (hlt : id < b.nextId) (hid : id ∉ held) : i ≠ id := by
  rintro rfl
  rcases h.fresh hb hi with hi | hle
  · exact hid hi
  · exact absurd hlt (Nat.not_lt.2 hle)

/-- A mailbox that is not the party's stays as it is. -/
theorem mailbox (hb : b.Agrees) (h : Conduct held b held' b') {id : SubscriptionId}
    (hid : id ∉ held) (hlt : id < b.nextId) : b'.subscription? id = b.subscription? id := by
  induction h with
  | rest => rfl
  | publish _ _ ih => exact ih hb hlt
  | @subscribe _ _ _ b' h scope hids ih =>
    have hne : b'.nextId ≠ id := Nat.ne_of_gt (Nat.lt_of_lt_of_le hlt (h.nextId hb))
    exact (subscription?_subscribe_of_ne b' scope hne).trans (ih hb hlt)
  | read h hi ih =>
    exact (subscription?_read_of_ne _ (h.foreign hb hi hlt hid)).trans (ih hb hlt)
  | @drop _ _ _ b' h i hi _ _ ih =>
    exact (subscription?_filter b' _ (h.foreign hb hi hlt hid) (subscriptions_release b' i)).trans
      (ih hb hlt)

/-- What a party does takes nothing out of a mailbox that is not its own. -/
theorem avoids (hb : b.Agrees) (h : Conduct held b held' b') : ∃ acts, b' = b.run acts ∧
    ∀ a ∈ acts, a.Private ∧ ∀ id < b.nextId, id ∉ held → a.Avoids id := by
  induction h with
  | rest => exact ⟨[], rfl, nofun⟩
  | publish _ e ih =>
    exact exists_run_concat (a := .publish e) ⟨trivial, fun _ _ _ => ⟨nofun, nofun⟩⟩ (ih hb)
  | subscribe _ scope _ ih =>
    exact exists_run_concat (a := .subscribe scope) ⟨trivial, fun _ _ _ => ⟨nofun, nofun⟩⟩ (ih hb)
  | @read _ _ _ h i hi ih =>
    refine exists_run_concat (a := .read i) ⟨trivial, fun id hlt hid => ⟨fun heq => ?_, nofun⟩⟩
      (ih hb)
    exact h.foreign hb hi hlt hid (Act.read.inj heq)
  | @drop _ _ _ _ h i hi _ _ ih =>
    refine exists_run_concat (a := .drop i) ⟨trivial, fun id hlt hid => ⟨nofun, fun heq => ?_⟩⟩
      (ih hb)
    exact h.foreign hb hi hlt hid (Act.drop.inj heq)

theorem minds (hb : b.Agrees) (h : Conduct held b held' b') : Minds held b held' b' :=
  ⟨fun _ hlt hid => h.mailbox hb hid hlt, fun _ => h.fresh hb⟩

end Conduct

/-! ## A reader -/

/-- The subscription to the channel has read `taken` and not the mark of the end; that and what lies
in its mailbox is what of `heard` was on the channel. -/
structure Tracks (b : Bus α) (id : SubscriptionId) (c : String) (inbox : List (Delivery α))
    (taken heard : List (Event α)) : Prop where
  mailbox : b.subscription? id = some { id, scope := .channel c, inbox }
  account : taken ++ Delivery.events inbox = Event.on c heard

namespace Tracks

variable {id : SubscriptionId} {c : String} {inbox : List (Delivery α)}
  {taken heard : List (Event α)}

theorem mem_roster (h : b.Tracks id c inbox taken heard) : (id, .channel c) ∈ b.roster :=
  mem_roster_of_mem (subscription?_eq_some h.mailbox).1

theorem congr (h : b.Tracks id c inbox taken heard)
    (hb : b'.subscription? id = b.subscription? id) : b'.Tracks id c inbox taken heard :=
  ⟨hb.trans h.mailbox, h.account⟩

/-- Every act of the others keeps the account. -/
theorem act (h : b.Tracks id c inbox taken heard) (hb : b.Agrees) {a : Act α} (ha : a.Avoids id) :
    ∃ ds, (b.act a).Tracks id c (inbox ++ ds) taken (heard ++ b.handsOut a) ∧
      (.closed ∈ ds ↔ a = .closeAll) := by
  obtain ⟨ds, hds, hevents, hmark⟩ := hb.delivered h.mailbox ha
  refine ⟨ds, ⟨hds, ?_⟩, hmark⟩
  rw [Delivery.events_append, ← List.append_assoc, h.account, hevents, Event.on_append]
  exact congrArg _ (List.filter_congr fun e _ => BEq.comm)

theorem run (h : b.Tracks id c inbox taken heard) (hb : b.Agrees) {acts : List (Act α)}
    (ha : ∀ a ∈ acts, a.Avoids id) :
    ∃ ds, (b.run acts).Tracks id c (inbox ++ ds) taken (heard ++ b.handed acts) := by
  induction acts generalizing b inbox heard with
  | nil =>
    refine ⟨[], ?_⟩
    rw [handed, List.append_nil, List.append_nil]
    exact h
  | cons a acts ih =>
    obtain ⟨ds, hds, -⟩ := h.act hb (ha a List.mem_cons_self)
    obtain ⟨ds', hds'⟩ := ih hds (hb.act a) fun x hx => ha x (List.mem_cons_of_mem _ hx)
    refine ⟨ds ++ ds', ?_⟩
    rw [handed, ← List.append_assoc, ← List.append_assoc]
    exact hds'

/-- What the dispatcher hands out comes to lie in the mailbox if it is on the channel. -/
theorem dispatch (h : b.Tracks id c inbox taken heard) (hb : b.Agrees) (hc : b.connected = true)
    {e : Event α} {es : List (Event α)} (hq : b.backend.queue = e :: es) :
    b.dispatch.Tracks id c (inbox ++ if e.channel == c then [.event e] else []) taken
      (heard ++ [e]) := by
  have hcovers : (Scope.channel c).covers e.channel = (e.channel == c) := BEq.comm
  refine ⟨?_, ?_⟩
  · rw [← hcovers]
    exact hb.subscription?_dispatch h.mailbox hc hq
  · rw [Delivery.events_append, ← List.append_assoc, h.account, Event.on_append]
    congr 1
    by_cases he : e.channel = c <;> simp [he, Delivery.events, Delivery.event?, Event.on]

theorem read {e : Event α} {rest : List (Delivery α)}
    (h : b.Tracks id c (.event e :: rest) taken heard) :
    e.channel = c ∧ (b.read id).2.Tracks id c rest (taken ++ [e]) heard := by
  have haccount : taken ++ e :: Delivery.events rest = Event.on c heard := h.account
  have hmem : e ∈ Event.on c heard := by
    rw [← haccount]
    exact List.mem_append_right _ List.mem_cons_self
  refine ⟨eq_of_beq (List.mem_filter.1 hmem).2, ?_, ?_⟩
  · exact subscription?_read_self h.mailbox
  · rw [List.append_assoc]
    exact haccount

/-- What is read next is what lies in front. -/
theorem reading (h : b.Tracks id c inbox taken heard) :
    (b.read id).1 = match inbox with
      | [] => .waiting
      | .event e :: _ => .event e
      | .closed :: _ => .closed := by
  rw [Bus.read, h.mailbox]
  cases inbox with
  | nil => rfl
  | cons d rest => cases d <;> rfl

theorem of_event {e : Event α} (h : b.Tracks id c inbox taken heard)
    (hread : (b.read id).1 = .event e) : ∃ rest, inbox = .event e :: rest := by
  rw [h.reading] at hread
  split at hread <;> cases hread
  exact ⟨_, rfl⟩

theorem of_closed (h : b.Tracks id c inbox taken heard) (hread : (b.read id).1 = .closed) :
    ∃ rest, inbox = .closed :: rest := by
  rw [h.reading] at hread
  split at hread <;> cases hread
  exact ⟨_, rfl⟩

theorem of_waiting (h : b.Tracks id c inbox taken heard) (hread : (b.read id).1 = .waiting) :
    inbox = [] := by
  rw [h.reading] at hread
  split at hread <;> cases hread
  rfl

end Tracks

/-- A subscription that has just been made has read nothing. -/
theorem Agrees.tracks_subscribe (h : b.Agrees) (c : String) :
    (b.subscribe (.channel c)).Tracks b.nextId c [] [] [] :=
  ⟨h.subscription?_subscribe _, rfl⟩

/-- The subscriptions after a run were there before, or have been numbered since. -/
theorem Agrees.mem_ids_run (h : b.Agrees) {acts : List (Act α)} {i : SubscriptionId}
    (hi : i ∈ (b.run acts).ids) :
    i ∈ b.ids ∨ i ∈ List.range' b.nextId ((b.run acts).nextId - b.nextId) := by
  obtain ⟨p, hp, rfl⟩ := List.mem_map.1 hi
  rcases h.mem_roster_run hp with hold | hle
  · exact .inl (List.mem_map_of_mem hold)
  · right
    have hlt := (h.run acts).old p hp
    refine List.mem_range'_1.2 ⟨hle, ?_⟩
    rwa [Nat.add_sub_cancel' (h.nextId_run acts)]

/-- A subscription that exists at both ends of a run has not been dropped in between. -/
theorem Agrees.kept_of_mem (h : b.Agrees) {x : SubscriptionId × Scope} (hx : x ∈ b.roster)
    {acts : List (Act α)} (hx' : x ∈ (b.run acts).roster) : ∀ a ∈ acts, a.drops x.1 = false := by
  induction acts generalizing b with
  | nil => exact nofun
  | cons a acts ih =>
    have hone : a.drops x.1 = false := by
      rw [← Bool.not_eq_true]
      intro hdrop
      obtain rfl := Act.eq_drop hdrop
      rcases (h.act (.drop x.1)).mem_roster_run hx' with hmem | hle
      · exact h.gone_release x.1 (List.mem_map_of_mem hmem)
      · exact absurd (h.old x hx) (Nat.not_lt.2 (Nat.le_trans (h.nextId_act _) hle))
    intro y hy
    rcases List.mem_cons.1 hy with rfl | hy
    · exact hone
    · exact ih (h.act a) (h.kept_act hx hone) hx' y hy

end Bus
end Parley
