import Parley.Proofs.Bus.Delivery

/-!
# Acts that leave a channel alone

An act that has nothing to do with a channel (`Act.spares`) changes neither who listens there, nor
what waits there, nor a mailbox that belongs to the channel (`Agrees.quiet_act`).
-/

set_option autoImplicit false

namespace Parley.Bus

variable {α : Type}

/-- A mailbox under a scope belongs to a subscription with that scope. -/
theorem Agrees.exists_subscription {b : Bus α} (h : b.Agrees) {id : SubscriptionId} {scope : Scope}
    (hid : id ∈ b.under scope) : ∃ s, b.subscription? id = some s ∧ s.scope = scope := by
  have hmem := mem_under.1 hid
  cases hs : b.subscription? id with
  | none => exact absurd (List.mem_map_of_mem hmem) (subscription?_eq_none.1 hs)
  | some s =>
    obtain ⟨hin, rfl⟩ := subscription?_eq_some hs
    exact ⟨s, rfl, h.scope_unique (mem_roster_of_mem hin) hmem⟩

/-- Nothing has changed on the channel. -/
structure Quiet (c : String) (b b' : Bus α) : Prop where
  under : b'.under (.channel c) = b.under (.channel c)
  queue : Event.on c b'.backend.queue = Event.on c b.backend.queue
  missed : Event.on c b'.backend.missed = Event.on c b.backend.missed
  kept : ∀ id ∈ b.under (.channel c), b'.subscription? id = b.subscription? id

theorem Quiet.refl (c : String) (b : Bus α) : Quiet c b b := ⟨rfl, rfl, rfl, fun _ _ => rfl⟩

theorem Quiet.trans {c : String} {b b' b'' : Bus α} (h : Quiet c b b') (h' : Quiet c b' b'') :
    Quiet c b b'' :=
  ⟨h'.under.trans h.under, h'.queue.trans h.queue, h'.missed.trans h.missed, fun id hid =>
    (h'.kept id (h.under ▸ hid)).trans (h.kept id hid)⟩

/-- Whoever has the same roster and backend and the same mailboxes has nothing changed. -/
theorem Quiet.of_backend {c : String} {b b' : Bus α} (hr : b'.roster = b.roster)
    (hb : b'.backend = b.backend)
    (hs : ∀ id ∈ b.under (.channel c), b'.subscription? id = b.subscription? id) : Quiet c b b' :=
  ⟨by rw [Bus.under, hr, Bus.under], by rw [hb], by rw [hb], hs⟩

/-- The act has nothing to do with the channel. -/
def Act.spares (c : String) (b : Bus α) : Act α → Prop
  | publish e => e.channel ≠ c
  | subscribe scope => scope.covers c = false
  | drop id | read id => (id, .channel c) ∉ b.roster
  | connect _ | detach => True
  | closeAll => False
  | dispatch => Event.on c (b.handsOut .dispatch) = []

theorem on_singleton_of_ne {e : Event α} {c : String} (h : e.channel ≠ c) :
    Event.on c [e] = [] := by
  simp [Event.on, h]

theorem quiet_publish (b : Bus α) {e : Event α} {c : String} (h : e.channel ≠ c) :
    Quiet c b (b.publish e) := by
  have hlists : Event.on c (b.backend.publish e).queue = Event.on c b.backend.queue ∧
      Event.on c (b.backend.publish e).missed = Event.on c b.backend.missed := by
    unfold Backend.publish
    split
    · exact ⟨by rw [Backend.enqueue, Event.on_append, on_singleton_of_ne h, List.append_nil], rfl⟩
    · exact ⟨rfl, by rw [Event.on_append, on_singleton_of_ne h, List.append_nil]⟩
  exact ⟨rfl, hlists.1, hlists.2, fun _ _ => rfl⟩

/-- Opening a scope that does not cover a channel moves nothing of that channel. -/
theorem on_open?_of_not_covers (backend : Backend α) {scope : Scope} {c : String}
    (h : scope.covers c = false) :
    Event.on c (open? backend scope).queue = Event.on c backend.queue ∧
      Event.on c (open? backend scope).missed = Event.on c backend.missed := by
  cases scope with
  | universal => cases h
  | channel d =>
    have hd : d ≠ c := by simpa [Scope.covers] using h
    have hmoved : Event.on c (backend.missed.filter (·.channel == d)) = [] :=
      List.filter_eq_nil_iff.2 fun e he hc => by
        have := (List.mem_filter.1 he).2
        exact hd ((eq_of_beq this).symm.trans (eq_of_beq hc))
    refine ⟨?_, ?_⟩
    · rw [open?, Backend.queue_subscribe, Event.on_append, hmoved, List.append_nil]
    · have hall := on_open? backend (.channel d) c
      rw [Event.on_append, Event.on_append, open?, Backend.queue_subscribe, Event.on_append, hmoved,
        List.append_nil] at hall
      exact List.append_cancel_left hall

theorem Agrees.quiet_subscribe {b : Bus α} (h : b.Agrees) {scope : Scope} {c : String}
    (hc : scope.covers c = false) : Quiet c b (b.subscribe scope) := by
  have hlists : Event.on c (b.subscribe scope).backend.queue = Event.on c b.backend.queue ∧
      Event.on c (b.subscribe scope).backend.missed = Event.on c b.backend.missed := by
    change Event.on c (if b.table.isListed scope then b.backend else _).queue = _ ∧
      Event.on c (if b.table.isListed scope then b.backend else _).missed = _
    split
    · exact ⟨rfl, rfl⟩
    · exact on_open?_of_not_covers b.backend hc
  refine ⟨?_, hlists.1, hlists.2, fun id hid => ?_⟩
  · rw [under_append b _ _ _ _ (roster_subscribe b scope), if_neg]
    rintro rfl
    simp [Scope.covers] at hc
  · obtain ⟨s, hs, -⟩ := h.exists_subscription hid
    rw [hs, subscription?, Bus.subscribe, List.find?_append, show List.find? _ _ = _ from hs]
    rfl

theorem Agrees.quiet_drop {b : Bus α} (h : b.Agrees) {id : SubscriptionId} {c : String}
    (hid : (id, .channel c) ∉ b.roster) : Quiet c b (b.release id) := by
  have hne : ∀ i ∈ b.under (.channel c), id ≠ i := by
    rintro i hi rfl
    exact hid (mem_under.1 hi)
  refine ⟨?_, by rw [(release_lists b id).1], by rw [(release_lists b id).2], fun i hi =>
    subscription?_filter b _ (hne i hi) (subscriptions_release b id)⟩
  rw [under, h.roster_release, List.filter_filter, under]
  refine congrArg (List.map _) (List.filter_congr fun x hx => ?_)
  rw [Bool.and_eq_left_iff_imp, bne_iff_ne]
  intro hscope hxid
  exact hid (by rw [← hxid, ← eq_of_beq hscope]; exact hx)

theorem quiet_read (b : Bus α) {id : SubscriptionId} {c : String}
    (hid : (id, .channel c) ∉ b.roster) : Quiet c b (b.read id).2 := by
  refine .of_backend (roster_read b id) (backend_read b id) fun i hi =>
    subscription?_read_of_ne b ?_
  rintro rfl
  exact hid (mem_under.1 hi)

theorem Agrees.quiet_dispatch {b : Bus α} (h : b.Agrees) {c : String}
    (hc : Event.on c (b.handsOut .dispatch) = []) : Quiet c b b.dispatch := by
  rcases dispatch_cases b with hr | ⟨e, rest, hconn, hq⟩
  · rw [dispatch_of_rest hr]
    exact .refl c b
  · have he : e.channel ≠ c := by
      rintro rfl
      simp [handsOut_cons hconn hq, Event.on] at hc
    refine ⟨by rw [under, roster_dispatch, under], ?_, by rw [dispatch_cons hconn hq],
      fun id hid => ?_⟩
    · rw [dispatch_cons hconn hq, hq, ← List.singleton_append, Event.on_append,
        on_singleton_of_ne he, List.nil_append]
    · obtain ⟨s, hs, hscope⟩ := h.exists_subscription hid
      rw [h.subscription?_dispatch hs hconn hq, hs, hscope, Scope.covers,
        if_neg (by simpa using Ne.symm he), List.append_nil, ← hscope]

/-- An act that has nothing to do with a channel changes nothing there. -/
theorem Agrees.quiet_act {b : Bus α} (h : b.Agrees) {c : String} {a : Act α} (ha : a.spares c b) :
    Quiet c b (b.act a) := by
  cases a with
  | publish e => exact quiet_publish b ha
  | subscribe scope => exact h.quiet_subscribe ha
  | drop id => exact h.quiet_drop ha
  | read id => exact quiet_read b ha
  | connect runtime =>
    rcases act_connect b runtime with hb | hb <;> rw [hb]
    · exact .refl c b
    · exact .of_backend rfl rfl fun _ _ => rfl
  | detach => exact .of_backend rfl rfl fun _ _ => rfl
  | closeAll => exact ha.elim
  | dispatch => exact h.quiet_dispatch ha

/-! ## What else acts leave alone -/

/-- Only a universal subscription makes somebody listen everywhere. -/
theorem Agrees.nobody_act {b : Bus α} (h : b.Agrees) (hu : b.under .universal = []) {a : Act α}
    (ha : a ≠ .subscribe .universal) : (b.act a).under .universal = [] := by
  rw [List.eq_nil_iff_forall_not_mem] at hu ⊢
  intro id hid
  have hold : (id, Scope.universal) ∉ b.roster := fun hm => hu id (mem_under.2 hm)
  replace hid := mem_under.1 hid
  rw [show (b.act a).roster = _ from congrArg Prod.snd (enroll_act h a)] at hid
  cases a with
  | subscribe scope =>
    rcases List.mem_append.1 hid with hid | hid
    · exact hold hid
    · cases List.mem_singleton.1 hid
      exact ha rfl
  | drop i => exact hold (List.mem_of_mem_filter hid)
  | _ => exact hold hid

theorem connected_act (b : Bus α) {a : Act α} (hc : ∀ runtime, a ≠ .connect runtime)
    (hd : a ≠ .detach) : (b.act a).connected = b.connected := by
  cases a with
  | connect runtime => exact absurd rfl (hc runtime)
  | detach => exact absurd rfl hd
  | drop id =>
    simp only [Bus.act, release, releaseReport]
    split
    · rfl
    · split
      · split <;> rfl
      · rfl
  | read id =>
    simp only [Bus.act, Bus.read]
    split <;> rfl
  | closeAll => rw [Bus.act, closeAll, foldl_deliver]
  | dispatch =>
    rcases dispatch_cases b with hr | ⟨e, rest, hconn, hq⟩
    · rw [Bus.act, dispatch_of_rest hr]
    · rw [Bus.act, dispatch_cons hconn hq]
  | _ => rfl

theorem connected_closeAll (b : Bus α) : b.closeAll.connected = b.connected :=
  connected_act b (a := .closeAll) (by simp) (by simp)

theorem connected_dispatch (b : Bus α) : b.dispatch.connected = b.connected :=
  connected_act b (a := .dispatch) (by simp) (by simp)

end Parley.Bus
