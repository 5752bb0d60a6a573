import Parley.Proofs.Bus.Delivery

/-!
# What is read from a mailbox

In every run a mailbox holds events that its subscription covers, and no others (`addressed_run`),
and an identifier never passes from one subscription to another (`Agrees.granted_run`). So an event
that is read under an identifier is covered by the scope for which the identifier was granted
(`covers_of_read`), whatever has happened in between.

And nothing comes out of a bus that was not put into it: what holds of all events that are published
holds of every event that waits or lies in a mailbox (`Agrees.carries_run`), and so of every event
that is read (`carries_of_read`).

What is `owed` to a subscription on a channel is what lies in its mailbox or waits. Whatever anybody
does, only what is published is added to that, behind the rest (`Agrees.owed_run`), and what is read
is taken from its front (`owed_of_read`).
-/

set_option autoImplicit false

namespace Parley.Bus

variable {α : Type}

/-- Every mailbox holds only what its subscription covers. -/
def Addressed (b : Bus α) : Prop :=
  ∀ id s, b.subscription? id = some s →
    ∀ e ∈ Delivery.events s.inbox, s.scope.covers e.channel = true

theorem addressed_empty : (({} : Bus α)).Addressed := nofun

/-- A subscription that was not there before an act is new, with an empty mailbox. -/
theorem Agrees.inbox_of_new {b : Bus α} (h : b.Agrees) {id : SubscriptionId}
    (hnone : b.subscription? id = none) {a : Act α} {s : Subscription α}
    (hs : (b.act a).subscription? id = some s) : s.inbox = [] := by
  have hroster : id ∈ (b.act a).roster.map (·.1) := by
    by_contra hid
    rw [subscription?_eq_none.2 hid] at hs
    cases hs
  rw [show (b.act a).roster = _ from congrArg Prod.snd (enroll_act h a)] at hroster
  have hold := subscription?_eq_none.1 hnone
  cases a with
  | subscribe scope =>
    rw [Bus.act, Bus.subscribe, subscription?, List.find?_append,
      show List.find? _ _ = _ from hnone, Option.none_or] at hs
    obtain rfl := List.mem_singleton.1 (List.mem_of_find?_eq_some hs)
    rfl
  | drop i => exact absurd ((List.filter_sublist.map _).subset hroster) hold
  | _ => exact absurd hroster hold

/-- An event that lies in a mailbox after an act lay there before or is handed out and covered. -/
theorem Agrees.mem_inbox_act {b : Bus α} (h : b.Agrees) {a : Act α} {id : SubscriptionId}
    {s' : Subscription α} (hs' : (b.act a).subscription? id = some s') {e : Event α}
    (he : e ∈ Delivery.events s'.inbox) :
    (∃ s, b.subscription? id = some s ∧ s'.scope = s.scope ∧ e ∈ Delivery.events s.inbox) ∨
      e ∈ (b.handsOut a).filter (s'.scope.covers ·.channel) := by
  cases hs : b.subscription? id with
  | none =>
    rw [h.inbox_of_new hs hs'] at he
    cases he
  | some s =>
    cases hdrop : a.drops id
    · obtain ⟨s'', hs'', hscope, hevents⟩ := h.subscription?_act hs hdrop
      cases hs'.symm.trans hs''
      have hmem : e ∈ Delivery.events s.inbox ++
          (b.handsOut a).filter (s.scope.covers ·.channel) := by
        rw [← hevents, Delivery.events_append]
        exact List.mem_append_right _ he
      rw [hscope]
      exact (List.mem_append.1 hmem).imp_left fun hmem => ⟨s, rfl, rfl, hmem⟩
    · obtain rfl := Act.eq_drop hdrop
      rw [Bus.act, subscription?_eq_none.2 (h.gone_release id)] at hs'
      cases hs'

theorem Agrees.addressed_act {b : Bus α} (h : b.Agrees) (hb : b.Addressed) (a : Act α) :
    (b.act a).Addressed := by
  intro id s' hs' e he
  rcases h.mem_inbox_act hs' he with ⟨s, hs, hscope, he⟩ | he
  · rw [hscope]
    exact hb id s hs e he
  · exact (List.mem_filter.1 he).2

theorem Agrees.addressed_run {b : Bus α} (h : b.Agrees) (hb : b.Addressed) (acts : List (Act α)) :
    (b.run acts).Addressed := by
  induction acts generalizing b with
  | nil => exact hb
  | cons a acts ih => exact ih (h.act a) (h.addressed_act hb a)

theorem addressed_run (acts : List (Act α)) : (run {} acts : Bus α).Addressed :=
  agrees_empty.addressed_run addressed_empty acts

/-- The identifier was given to a subscription with this scope. -/
structure Granted (b : Bus α) (id : SubscriptionId) (scope : Scope) : Prop where
  old : id < b.nextId
  only : ∀ x, (id, x) ∈ b.roster → x = scope

theorem Agrees.granted_subscribe {b : Bus α} (h : b.Agrees) (scope : Scope) :
    (b.subscribe scope).Granted b.nextId scope := by
  refine ⟨?_, fun x hx => ?_⟩
  · exact Nat.lt_of_lt_of_eq (Nat.lt_succ_self _) (Table.nextId_register b.table scope).symm
  · rw [roster_subscribe] at hx
    rcases List.mem_append.1 hx with hx | hx
    · exact absurd (h.old _ hx) (Nat.lt_irrefl _)
    · exact congrArg Prod.snd (List.mem_singleton.1 hx)

theorem Agrees.granted_act {b : Bus α} (h : b.Agrees) {id : SubscriptionId} {scope : Scope}
    (hid : b.Granted id scope) (a : Act α) : (b.act a).Granted id scope := by
  refine ⟨Nat.lt_of_lt_of_le hid.old (h.nextId_act a), fun x hx => hid.only x ?_⟩
  rw [show (b.act a).roster = _ from congrArg Prod.snd (enroll_act h a)] at hx
  cases a with
  | subscribe other =>
    rcases List.mem_append.1 hx with hx | hx
    · exact hx
    · exact absurd (congrArg Prod.fst (List.mem_singleton.1 hx)) (Nat.ne_of_lt hid.old)
  | drop i => exact List.mem_of_mem_filter hx
  | _ => exact hx

theorem Agrees.granted_run {b : Bus α} (h : b.Agrees) {id : SubscriptionId} {scope : Scope}
    (hid : b.Granted id scope) (acts : List (Act α)) : (b.run acts).Granted id scope := by
  induction acts generalizing b with
  | nil => exact hid
  | cons a acts ih => exact ih (h.act a) (h.granted_act hid a)

/-- What is read lay in the mailbox. -/
theorem mem_inbox_of_read {b : Bus α} {id : SubscriptionId} {e : Event α}
    (h : (b.read id).1 = .event e) :
    ∃ s, b.subscription? id = some s ∧ e ∈ Delivery.events s.inbox := by
  cases hs : b.subscription? id with
  | none =>
    rw [Bus.read, hs] at h
    cases h
  | some s =>
    refine ⟨s, rfl, ?_⟩
    rw [Bus.read, hs] at h
    simp only [Subscription.read] at h
    split at h
    · cases h
    · split at h
      · cases h
      · next hin =>
        cases h
        rw [hin]
        exact List.mem_cons_self
      · cases h

/-- What is read under an identifier is covered by the scope it was given for. -/
theorem covers_of_read {b : Bus α} (hb : b.Addressed) {id : SubscriptionId} {scope : Scope}
    (hid : b.Granted id scope) {e : Event α} (h : (b.read id).1 = .event e) :
    scope.covers e.channel = true := by
  obtain ⟨s, hs, he⟩ := mem_inbox_of_read h
  obtain ⟨hmem, rfl⟩ := subscription?_eq_some hs
  rw [← hid.only _ (mem_roster_of_mem hmem)]
  exact hb _ s hs e he

/-! ## Where events come from -/

/-- Every event that waits or lies in a mailbox has the property. -/
structure Carries (b : Bus α) (p : Event α → Prop) : Prop where
  backlog : ∀ e ∈ b.backlog, p e
  mailbox : ∀ id s, b.subscription? id = some s → ∀ e ∈ Delivery.events s.inbox, p e

theorem carries_empty (p : Event α → Prop) : (({} : Bus α)).Carries p :=
  ⟨fun _ he => absurd he List.not_mem_nil, nofun⟩

theorem Carries.mono {b : Bus α} {p q : Event α → Prop} (h : b.Carries p) (hpq : ∀ e, p e → q e) :
    b.Carries q :=
  ⟨fun e he => hpq e (h.backlog e he), fun id s hs e he => hpq e (h.mailbox id s hs e he)⟩

theorem carries_of_read {b : Bus α} {p : Event α → Prop} (h : b.Carries p) {id : SubscriptionId}
    {e : Event α} (he : (b.read id).1 = .event e) : p e := by
  obtain ⟨s, hs, hmem⟩ := mem_inbox_of_read he
  exact h.mailbox id s hs e hmem

/-- What an act hands out, and what waits after it, has waited before or is published by it. -/
theorem Agrees.mem_backlog_act {b : Bus α} (h : b.Agrees) {a : Act α} {e : Event α}
    (he : e ∈ b.handsOut a ∨ e ∈ (b.act a).backlog) : e ∈ b.backlog ∨ e ∈ published [a] := by
  have hon : e ∈ Event.on e.channel b.backlog ++ Event.on e.channel (published [a]) := by
    rw [h.backlog_act, ← Event.on_append]
    exact List.mem_filter.2 ⟨List.mem_append.2 he, beq_self_eq_true _⟩
  exact (List.mem_append.1 hon).imp List.mem_of_mem_filter List.mem_of_mem_filter

theorem Agrees.carries_act {b : Bus α} (h : b.Agrees) {p : Event α → Prop} (hb : b.Carries p)
    {a : Act α} (ha : ∀ e ∈ published [a], p e) : (b.act a).Carries p := by
  have hmem : ∀ e, e ∈ b.handsOut a ∨ e ∈ (b.act a).backlog → p e := fun e he =>
    (h.mem_backlog_act he).elim (hb.backlog e) (ha e)
  refine ⟨fun e he => hmem e (.inr he), fun id s' hs' e he => ?_⟩
  rcases h.mem_inbox_act hs' he with ⟨s, hs, -, he⟩ | he
  · exact hb.mailbox id s hs e he
  · exact hmem e (.inl (List.mem_of_mem_filter he))

theorem Agrees.carries_run {b : Bus α} (h : b.Agrees) {p : Event α → Prop} (hb : b.Carries p)
    {acts : List (Act α)} (ha : ∀ e ∈ published acts, p e) : (b.run acts).Carries p := by
  induction acts generalizing b with
  | nil => exact hb
  | cons a acts ih =>
    rw [← List.singleton_append, published_append] at ha
    refine ih (h.act a) (h.carries_act hb fun e he => ha e (List.mem_append_left _ he)) fun e he => ?_
    exact ha e (List.mem_append_right _ he)

/-! ## What is still to be read -/

/-- What is still to be read under the identifier on the channel: what lies in the mailbox, and
behind it what waits. -/
def owed (b : Bus α) (id : SubscriptionId) (c : String) : List (Event α) :=
  Event.on c (Delivery.events (b.inbox id)) ++ Event.on c b.backlog

/-- What lies in a mailbox after an act lay there before, or is handed out. -/
theorem Agrees.inbox_act_sublist {b : Bus α} (h : b.Agrees) (a : Act α) (id : SubscriptionId) :
    (Delivery.events ((b.act a).inbox id)).Sublist
      (Delivery.events (b.inbox id) ++ b.handsOut a) := by
  cases hs' : (b.act a).subscription? id with
  | none =>
    rw [inbox, hs']
    exact List.nil_sublist _
  | some s' =>
    rw [inbox, hs', Option.map_some, Option.getD_some]
    cases hs : b.subscription? id with
    | none =>
      rw [h.inbox_of_new hs hs']
      exact List.nil_sublist _
    | some s =>
      rw [inbox, hs, Option.map_some, Option.getD_some]
      cases hdrop : a.drops id with
      | true =>
        obtain rfl := Act.eq_drop hdrop
        rw [Bus.act, subscription?_eq_none.2 (h.gone_release id)] at hs'
        cases hs'
      | false =>
        obtain ⟨s'', hs'', -, hevents⟩ := h.subscription?_act hs hdrop
        cases hs'.symm.trans hs''
        have hleft : (Delivery.events s'.inbox).Sublist
            (Delivery.events s.inbox ++ (b.handsOut a).filter (s.scope.covers ·.channel)) := by
          rw [← hevents, Delivery.events_append]
          exact List.sublist_append_right _ _
        exact hleft.trans (List.filter_sublist.append_left _)

/-- One act adds what it publishes to what is owed, and no more. -/
theorem Agrees.owed_act {b : Bus α} (h : b.Agrees) (a : Act α) (id : SubscriptionId) (c : String) :
    ((b.act a).owed id c).Sublist (b.owed id c ++ Event.on c (published [a])) := by
  have hinbox := (h.inbox_act_sublist a id).filter (·.channel == c)
  rw [List.filter_append] at hinbox
  rw [owed, owed, List.append_assoc, h.backlog_act, ← List.append_assoc]
  exact hinbox.append_right _

/-- **What is owed** after any acts was owed before, or has been published since. -/
theorem Agrees.owed_run {b : Bus α} (h : b.Agrees) (acts : List (Act α)) (id : SubscriptionId)
    (c : String) :
    ((b.run acts).owed id c).Sublist (b.owed id c ++ Event.on c (published acts)) := by
  induction acts generalizing b with
  | nil => exact List.sublist_append_left _ _
  | cons a acts ih =>
    rw [← List.singleton_append, published_append, Event.on_append, ← List.append_assoc]
    exact (ih (h.act a)).trans ((h.owed_act a id c).append_right _)

/-- To an identifier that has not been given yet all that waits is owed. -/
theorem Agrees.owed_of_new {b : Bus α} (h : b.Agrees) {id : SubscriptionId} (hid : b.nextId ≤ id)
    (c : String) : b.owed id c = Event.on c b.backlog := by
  have hnone : b.subscription? id = none := by
    refine subscription?_eq_none.2 fun hmem => ?_
    obtain ⟨p, hp, rfl⟩ := List.mem_map.1 hmem
    exact absurd (h.old p hp) (Nat.not_lt.2 hid)
  rw [owed, inbox, hnone]
  rfl

/-- What waits is owed to everyone. -/
theorem backlog_sublist_owed (b : Bus α) (id : SubscriptionId) (c : String) :
    (Event.on c b.backlog).Sublist (b.owed id c) := List.sublist_append_right _ _

/-- What is read is what was owed first. -/
theorem owed_of_read {b : Bus α} {id : SubscriptionId} {e : Event α}
    (h : (b.read id).1 = .event e) (c : String) :
    b.owed id c = Event.on c [e] ++ (b.read id).2.owed id c := by
  cases hs : b.subscription? id with
  | none =>
    rw [Bus.read, hs] at h
    cases h
  | some s =>
    have hafter := subscription?_read_self hs
    have hbacklog : (b.read id).2.backlog = b.backlog := by rw [backlog, backend_read, backlog]
    rw [Bus.read, hs] at h
    rw [owed, owed, inbox, inbox, hs, hafter, hbacklog]
    simp only [Subscription.read] at h ⊢
    split at h
    · cases h
    · next hopen =>
      rw [if_neg hopen]
      split at h
      · cases h
      · next rest hin =>
        cases h
        have hevents : Delivery.events (.event e :: rest) = [e] ++ Delivery.events rest := rfl
        simp only [hin, Option.map_some, Option.getD_some]
        rw [hevents, Event.on_append, List.append_assoc]
      · cases h

end Parley.Bus
