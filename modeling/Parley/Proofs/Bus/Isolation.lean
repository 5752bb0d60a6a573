import Parley.Proofs.Bus.Bystander
import Parley.Proofs.Bus.Flush
import Parley.Proofs.Bus.OneListener

/-!
# Channels are isolated

A run can be `confined` to a channel: everything that concerns another channel is left out of it.
Two buses, the one of the whole run and the one of the confined run, are led side by side. The
second is a shadow of the first (`Shadows`): it queues and holds back of it what is on the channel,
and has those of its subscriptions that cover the channel, in the same order. It numbers them
afresh: `ids` lists their identifiers in the whole run, and their places in this list are the
identifiers in the confined one. Every act keeps the shadow (`Shadows.act`), and puts the same of the
channel into the mailboxes on both sides (`Shadows.arrivals`). `channels_isolated` puts it together.
-/

set_option autoImplicit false

namespace Parley

variable {α : Type}

/-- The delivery is an event of the channel or the mark of the end. -/
def Delivery.concerns (c : String) : Delivery α → Bool
  | event e => e.channel == c
  | closed => true

namespace Bus

variable {b b' : Bus α} {c : String} {ids : List SubscriptionId}

/-! ## The confined run -/

/-- The identifiers of the subscriptions that cover the channel, after an act; `ids` are those from
before it. -/
def note (c : String) (b : Bus α) (ids : List SubscriptionId) : Act α → List SubscriptionId
  | .subscribe scope => if scope.covers c then ids ++ [b.nextId] else ids
  | _ => ids

/-- What is left of an act when it is confined to a channel: nothing, if it concerns another one. -/
def confine (c : String) (b : Bus α) (ids : List SubscriptionId) : Act α → List (Act α)
  | .publish e => if e.channel == c then [.publish e] else []
  | .subscribe scope => if scope.covers c then [.subscribe scope] else []
  | .drop id => if id ∈ ids then [.drop (ids.idxOf id)] else []
  | .read id => if id ∈ ids then [.read (ids.idxOf id)] else []
  | .dispatch => if (b.handsOut .dispatch).all (·.channel == c) then [.dispatch] else []
  | .connect runtime => [.connect runtime]
  | .detach => [.detach]
  | .closeAll => [.closeAll]

def notes (c : String) (b : Bus α) (ids : List SubscriptionId) : List (Act α) → List SubscriptionId
  | [] => ids
  | a :: acts => (b.act a).notes c (b.note c ids a) acts

def confined (c : String) (b : Bus α) (ids : List SubscriptionId) : List (Act α) → List (Act α)
  | [] => []
  | a :: acts => b.confine c ids a ++ (b.act a).confined c (b.note c ids a) acts

theorem confined_append (c : String) (b : Bus α) (ids : List SubscriptionId)
    (xs ys : List (Act α)) : b.confined c ids (xs ++ ys) =
      b.confined c ids xs ++ (b.run xs).confined c (b.notes c ids xs) ys := by
  induction xs generalizing b ids with
  | nil => rfl
  | cons a xs ih =>
    rw [List.cons_append, confined, confined, ih, List.append_assoc]
    rfl

/-! ## What is put into a mailbox -/

/-- What a run puts into a mailbox. -/
def posted (b : Bus α) (id : SubscriptionId) : List (Act α) → List (Delivery α)
  | [] => []
  | a :: acts => b.arrivals (b.act a) id ++ (b.act a).posted id acts

theorem posted_append (id : SubscriptionId) (xs ys : List (Act α)) :
    b.posted id (xs ++ ys) = b.posted id xs ++ (b.run xs).posted id ys := by
  induction xs generalizing b with
  | nil => rfl
  | cons a xs ih =>
    rw [List.cons_append, posted, posted, ih, List.append_assoc]
    rfl

theorem arrivals_of_silent (b : Bus α) (id : SubscriptionId) {a : Act α} (ha : a.Silent) :
    b.arrivals (b.act a) id = [] := by
  have hone : ∀ x ∈ [a], x ≠ .dispatch ∧ x ≠ .closeAll := by
    intro x hx
    rw [List.mem_singleton.1 hx]
    exact ha
  exact arrivals_of_le (length_inbox_le id hone)

theorem posted_of_silent (id : SubscriptionId) {acts : List (Act α)} (h : ∀ a ∈ acts, a.Silent) :
    b.posted id acts = [] := by
  induction acts generalizing b with
  | nil => rfl
  | cons a acts ih =>
    rw [posted, arrivals_of_silent b id (h a List.mem_cons_self),
      ih fun x hx => h x (List.mem_cons_of_mem _ hx)]
    rfl

/-- Who is not on the roster has nothing put into a mailbox. -/
theorem arrivals_of_gone {id : SubscriptionId} (hid : id ∉ b'.ids) : b.arrivals b' id = [] := by
  have hnone : b'.inbox id = [] := by
    rw [inbox, subscription?_eq_none.2 hid]
    rfl
  rw [arrivals, hnone, List.drop_nil]

/-- A mailbox that exists is registered once. -/
theorem Agrees.count_all (h : b.Agrees) {id : SubscriptionId} {s : Subscription α}
    (hs : b.subscription? id = some s) : b.table.all.count s.id = 1 := by
  have hle := List.nodup_iff_count_le_one.1 h.nodup_all s.id
  have hpos := h.count_all_pos hs
  omega

theorem Agrees.arrivals_closeAll (h : b.Agrees) {id : SubscriptionId} (hid : id ∈ b.ids) :
    b.arrivals b.closeAll id = [.closed] := by
  cases hs : b.subscription? id with
  | none => exact absurd hid (subscription?_eq_none.1 hs)
  | some s =>
    have hclosed := subscription?_closeAll hs
    rw [h.count_all hs] at hclosed
    rw [arrivals, inbox_of_subscription? hclosed, inbox_of_subscription? hs, List.drop_left]
    rfl

/-- What is taken out of a mailbox and what then lies in it are what lay there and what arrives. -/
theorem Agrees.takenBy_append_inbox (h : b.Agrees) (id : SubscriptionId) (a : Act α) :
    b.takenBy id a ++ (b.act a).inbox id = b.inbox id ++ b.arrivals (b.act a) id := by
  by_cases ha : a.Silent
  · rw [Bus.takenBy_append_inbox b id ha, arrivals_of_silent b id ha, List.append_nil]
  · have htaken : b.takenBy id a = [] ∧ a.Avoids id := by
      cases a with
      | dispatch => exact ⟨rfl, nofun, nofun⟩
      | closeAll => exact ⟨rfl, nofun, nofun⟩
      | _ => exact absurd ⟨nofun, nofun⟩ ha
    rw [htaken.1, List.nil_append]
    cases hs : b.subscription? id with
    | none =>
      have hnone : (b.act a).subscription? id = none := by
        rw [subscription?_eq_none] at hs ⊢
        cases a with
        | dispatch =>
          rw [Bus.act, roster_dispatch]
          exact hs
        | closeAll =>
          rw [Bus.act, roster_closeAll]
          exact hs
        | _ => exact absurd ⟨nofun, nofun⟩ ha
      simp [arrivals, inbox, hs, hnone]
    | some s =>
      obtain ⟨ds, hds, -⟩ := h.delivered hs htaken.2
      rw [arrivals, inbox_of_subscription? hds, inbox_of_subscription? hs, List.drop_left]

/-- The mail of a subscription is what lay in its mailbox and what is put into it. -/
theorem Agrees.mail_eq (h : b.Agrees) (id : SubscriptionId) (acts : List (Act α)) :
    b.mail id acts = b.inbox id ++ b.posted id acts := by
  induction acts generalizing b with
  | nil => exact (List.append_nil _).symm
  | cons a acts ih =>
    calc b.mail id (a :: acts) = b.takenBy id a ++ (b.act a).mail id acts :=
          List.append_assoc _ _ _
      _ = b.takenBy id a ++ (b.act a).inbox id ++ (b.act a).posted id acts := by
          rw [ih (h.act a), List.append_assoc]
      _ = b.inbox id ++ b.posted id (a :: acts) := by
          rw [h.takenBy_append_inbox, List.append_assoc]
          rfl

theorem Agrees.mail_subscribe (h : b.Agrees) (scope : Scope) (acts : List (Act α)) :
    b.mail b.nextId (.subscribe scope :: acts) = (b.subscribe scope).posted b.nextId acts := by
  have hsame : b.mail b.nextId (.subscribe scope :: acts) = (b.subscribe scope).mail b.nextId acts :=
    rfl
  rw [hsame, (h.subscribe scope).mail_eq, inbox_of_subscription? (h.subscription?_subscribe scope)]
  rfl

/-- Whoever listens to the channel alone is mailed nothing else. -/
theorem Agrees.concerns_of_arrivals (h : b.Agrees) {id : SubscriptionId}
    (hid : b.Granted id (.channel c)) {a : Act α} {d : Delivery α}
    (hd : d ∈ b.arrivals (b.act a) id) : d.concerns c = true := by
  cases hs : b.subscription? id with
  | none =>
    have hinbox : (b.act a).inbox id = [] := by
      cases hs' : (b.act a).subscription? id with
      | none =>
        rw [inbox, hs']
        rfl
      | some s' => rw [inbox_of_subscription? hs', h.inbox_of_new hs hs']
    rw [arrivals, hinbox, List.drop_nil] at hd
    exact absurd hd List.not_mem_nil
  | some s =>
    have hloud : ¬ a.Silent := by
      intro ha
      rw [arrivals_of_silent b id ha] at hd
      exact List.not_mem_nil hd
    have ha : a.Avoids id := by
      constructor <;> rintro rfl <;> exact hloud (by simp [Act.Silent])
    obtain ⟨ds, hds, hevents, -⟩ := h.delivered hs ha
    rw [arrivals, inbox_of_subscription? hds, inbox_of_subscription? hs, List.drop_left] at hd
    cases d with
    | closed => rfl
    | event e =>
      have he : e ∈ Delivery.events ds := List.mem_filterMap.2 ⟨_, hd, rfl⟩
      rw [hevents, List.mem_filter] at he
      obtain ⟨hmem, rfl⟩ := subscription?_eq_some hs
      rw [hid.only _ (mem_roster_of_mem hmem)] at he
      rw [Delivery.concerns, BEq.comm]
      exact he.2

theorem Agrees.concerns_of_posted (h : b.Agrees) {id : SubscriptionId}
    (hid : b.Granted id (.channel c)) {acts : List (Act α)} {d : Delivery α}
    (hd : d ∈ b.posted id acts) : d.concerns c = true := by
  induction acts generalizing b with
  | nil => exact absurd hd List.not_mem_nil
  | cons a acts ih =>
    rw [posted, List.mem_append] at hd
    rcases hd with hd | hd
    · exact h.concerns_of_arrivals hid hd
    · exact ih (h.act a) (h.granted_act hid a) hd

/-! ## What is held back -/

theorem Agrees.missed_publish (h : b.Agrees) (e : Event α) :
    (b.publish e).backend.missed =
      b.backend.missed ++ if b.attended e.channel then [] else [e] := by
  rw [← h.hears_eq]
  cases hh : b.backend.hears e.channel
  · simp [Bus.publish, Backend.publish_of_unheard hh]
  · simp [Bus.publish, Backend.publish_of_heard hh, Backend.enqueue]

theorem Agrees.missed_subscribe (h : b.Agrees) (scope : Scope) :
    (b.subscribe scope).backend.missed =
      b.backend.missed.filter (!scope.covers ·.channel) := by
  simp only [Bus.subscribe]
  split
  · next hl =>
    symm
    rw [List.filter_eq_self]
    intro e he
    have hnone := List.filter_eq_nil_iff.1 (h.filter_missed_of_listed hl) e he
    simpa using hnone
  · cases scope with
    | channel d =>
      rw [open?, Backend.missed_subscribe]
      apply List.filter_congr
      intro e _
      simp [Scope.covers, bne, BEq.comm]
    | universal => simp [open?, Backend.universalSubscribe, Backend.enqueue, Scope.covers]

/-! ## The shadow -/

/-- The bus of the confined run, beside the one of the whole run (module doc). -/
structure Shadows (c : String) (ids : List SubscriptionId) (b b' : Bus α) : Prop where
  connected : b'.connected = b.connected
  queue : b'.backend.queue = Event.on c b.backend.queue
  missed : b'.backend.missed = Event.on c b.backend.missed
  roster : b'.roster = (b.roster.filter (·.2.covers c)).map fun x => (ids.idxOf x.1, x.2)
  nextId : b'.nextId = ids.length
  nodup : ids.Nodup
  old : ∀ id ∈ ids, id < b.nextId
  kept : ∀ x ∈ b.roster, x.1 ∈ ids ↔ x.2.covers c = true

theorem shadows_empty (c : String) : Shadows c [] ({} : Bus α) {} where
  connected := rfl
  queue := rfl
  missed := rfl
  roster := rfl
  nextId := rfl
  nodup := List.nodup_nil
  old := nofun
  kept := nofun

namespace Shadows

/-- What changes neither roster need only be seen in the lists of events. -/
theorem frame {x x' : Bus α} (h : Shadows c ids b b')
    (hx : (x.nextId, x.roster) = (b.nextId, b.roster))
    (hx' : (x'.nextId, x'.roster) = (b'.nextId, b'.roster))
    (connected : x'.connected = x.connected)
    (queue : x'.backend.queue = Event.on c x.backend.queue)
    (missed : x'.backend.missed = Event.on c x.backend.missed) : Shadows c ids x x' := by
  obtain ⟨hnext, hroster⟩ := Prod.mk.inj hx
  obtain ⟨hnext', hroster'⟩ := Prod.mk.inj hx'
  refine ⟨connected, queue, missed, ?_, hnext'.trans h.nextId, h.nodup, ?_, ?_⟩
  · rw [hroster', hroster, h.roster]
  · rw [hnext]
    exact h.old
  · rw [hroster]
    exact h.kept

theorem mem_roster (h : Shadows c ids b b') {x : SubscriptionId × Scope} (hx : x ∈ b.roster)
    (hid : x.1 ∈ ids) : (ids.idxOf x.1, x.2) ∈ b'.roster := by
  rw [h.roster, List.mem_map]
  exact ⟨x, List.mem_filter.2 ⟨hx, (h.kept x hx).1 hid⟩, rfl⟩

theorem idxOf_inj {i j : SubscriptionId} (hi : i ∈ ids) (h : ids.idxOf i = ids.idxOf j) : i = j :=
  (List.idxOf_inj hi).1 h

theorem not_mem_ids (h : Shadows c ids b b') {id : SubscriptionId} (hid : id ∈ ids)
    (hgone : id ∉ b.ids) : ids.idxOf id ∉ b'.ids := by
  intro hmem
  obtain ⟨x', hx', hidx⟩ := List.mem_map.1 hmem
  rw [h.roster, List.mem_map] at hx'
  obtain ⟨x, hx, rfl⟩ := hx'
  apply hgone
  rw [idxOf_inj hid hidx.symm]
  exact List.mem_map_of_mem (List.mem_of_mem_filter hx)

theorem attended (h : Shadows c ids b b') : b'.attended c = b.attended c := by
  rw [Bus.attended, Bus.attended, h.roster, List.any_map, List.any_filter]
  simp

theorem under (h : Shadows c ids b b') :
    b'.under (.channel c) = (b.under (.channel c)).map ids.idxOf := by
  rw [Bus.under, Bus.under, h.roster, List.filter_map, List.filter_filter, List.map_map,
    List.map_map]
  congr 1
  apply List.filter_congr
  intro x _
  by_cases hx : x.2 = .channel c <;> simp [hx, Scope.covers]

/-! ## One act -/

theorem publish (h : Shadows c ids b b') (hb : b.Agrees) (hb' : b'.Agrees) {e : Event α}
    (he : e.channel = c) : Shadows c ids (b.publish e) (b'.publish e) := by
  have hone : Event.on c [e] = [e] := by simp [Event.on, he]
  refine h.frame rfl rfl h.connected ?_ ?_
  · rw [hb.queue_publish, hb'.queue_publish, Event.on_append, h.queue]
    simp only [queues, he, h.attended]
    split
    · rw [hone]
    · rfl
  · rw [hb.missed_publish, hb'.missed_publish, Event.on_append, h.missed, he, h.attended]
    split
    · rfl
    · rw [hone]

theorem subscribe (h : Shadows c ids b b') (hb : b.Agrees) (hb' : b'.Agrees) {scope : Scope}
    (hc : scope.covers c = true) :
    Shadows c (ids ++ [b.nextId]) (b.subscribe scope) (b'.subscribe scope) := by
  have hnew : b.nextId ∉ ids := fun hid => Nat.lt_irrefl _ (h.old _ hid)
  have hnext : ∀ x : Bus α, (x.subscribe scope).nextId = x.nextId + 1 := fun x =>
    Table.nextId_register x.table scope
  have hcovered : ∀ es : List (Event α),
      (Event.on c es).filter (scope.covers ·.channel) = Event.on c es := by
    intro es
    rw [List.filter_eq_self]
    intro e he
    rw [eq_of_beq (List.mem_filter.1 he).2]
    exact hc
  refine ⟨h.connected, ?_, ?_, ?_, ?_, ?_, ?_, ?_⟩
  · rw [hb.queue_subscribe, hb'.queue_subscribe, Event.on_append, on_filter_covers hc, h.queue,
      h.missed, hcovered]
  · rw [hb.missed_subscribe, hb'.missed_subscribe, h.missed, Event.on, Event.on,
      List.filter_filter, List.filter_filter]
    apply List.filter_congr
    intro e _
    exact Bool.and_comm _ _
  · rw [roster_subscribe, roster_subscribe, List.filter_append, List.map_append, h.roster, h.nextId]
    congr 1
    · apply List.map_congr_left
      intro x hx
      obtain ⟨hx, hcov⟩ := List.mem_filter.1 hx
      rw [List.idxOf_append_of_mem ((h.kept x hx).2 hcov)]
    · simp [hc, List.idxOf_append_of_notMem hnew]
  · rw [hnext, h.nextId, List.length_append]
    rfl
  · exact List.nodup_append.2 ⟨h.nodup, List.nodup_singleton _, fun i hi j hj => by
      rw [List.mem_singleton.1 hj]
      rintro rfl
      exact hnew hi⟩
  · intro id hid
    rw [hnext]
    rcases List.mem_append.1 hid with hid | hid
    · exact Nat.lt_succ_of_lt (h.old id hid)
    · rw [List.mem_singleton.1 hid]
      exact Nat.lt_succ_self _
  · intro x hx
    rw [roster_subscribe] at hx
    rcases List.mem_append.1 hx with hx | hx
    · rw [List.mem_append, List.mem_singleton, or_iff_left (Nat.ne_of_lt (hb.old x hx))]
      exact h.kept x hx
    · rw [List.mem_singleton.1 hx]
      simp [hc]

/-- A subscription to another channel is not seen. -/
theorem subscribe_other (h : Shadows c ids b b') (hb : b.Agrees) {scope : Scope}
    (hc : scope.covers c = false) : Shadows c ids (b.subscribe scope) b' := by
  have hquiet := hb.quiet_subscribe hc
  have hnew : b.nextId ∉ ids := fun hid => Nat.lt_irrefl _ (h.old _ hid)
  refine ⟨h.connected, h.queue.trans hquiet.queue.symm, h.missed.trans hquiet.missed.symm, ?_,
    h.nextId, h.nodup, ?_, ?_⟩
  · rw [roster_subscribe, List.filter_append, h.roster]
    simp [hc]
  · intro id hid
    rw [Bus.nextId, show (b.subscribe scope).table = b.table.register scope from rfl,
      Table.nextId_register]
    exact Nat.lt_succ_of_lt (h.old id hid)
  · intro x hx
    rw [roster_subscribe] at hx
    rcases List.mem_append.1 hx with hx | hx
    · exact h.kept x hx
    · rw [List.mem_singleton.1 hx]
      simp [hc, hnew]

theorem drop (h : Shadows c ids b b') (hb : b.Agrees) (hb' : b'.Agrees) {id : SubscriptionId}
    (hid : id ∈ ids) : Shadows c ids (b.release id) (b'.release (ids.idxOf id)) := by
  have hnext : ∀ {x : Bus α}, x.Agrees → ∀ i, (x.release i).nextId = x.nextId := fun hx i =>
    congrArg Prod.fst (enroll_act hx (.drop i))
  have hconn : ∀ (x : Bus α) i, (x.release i).connected = x.connected := fun x i =>
    connected_act x (a := .drop i) nofun nofun
  refine ⟨?_, ?_, ?_, ?_, ?_, h.nodup, ?_, ?_⟩
  · rw [hconn, hconn, h.connected]
  · rw [(release_lists b' _).1, (release_lists b id).1, h.queue]
  · rw [(release_lists b' _).2, (release_lists b id).2, h.missed]
  · rw [hb'.roster_release, hb.roster_release, h.roster, List.filter_map, List.filter_filter,
      List.filter_filter]
    congr 1
    apply List.filter_congr
    intro x _
    -- two identifiers have one place only if they are the same
    have hsame : (ids.idxOf x.1 != ids.idxOf id) = (x.1 != id) := by
      rw [Bool.eq_iff_iff, bne_iff_ne, bne_iff_ne, not_iff_not]
      constructor
      · intro hidx
        exact (idxOf_inj hid hidx.symm).symm
      · rintro rfl
        rfl
    simp only [Function.comp, hsame, Bool.and_comm]
  · rw [hnext hb', h.nextId]
  · rw [hnext hb]
    exact h.old
  · intro x hx
    rw [hb.roster_release] at hx
    exact h.kept x (List.mem_of_mem_filter hx)

/-- A subscription that does not cover the channel is not missed. -/
theorem drop_other (h : Shadows c ids b b') (hb : b.Agrees) {id : SubscriptionId}
    (hid : id ∉ ids) : Shadows c ids (b.release id) b' := by
  have hnext : (b.release id).nextId = b.nextId := congrArg Prod.fst (enroll_act hb (.drop id))
  refine ⟨?_, ?_, ?_, ?_, h.nextId, h.nodup, ?_, ?_⟩
  · rw [h.connected]
    exact (connected_act b (a := .drop id) nofun nofun).symm
  · rw [(release_lists b id).1, h.queue]
  · rw [(release_lists b id).2, h.missed]
  · rw [hb.roster_release, h.roster, List.filter_filter]
    congr 1
    apply List.filter_congr
    intro x hx
    rw [eq_comm, Bool.and_eq_left_iff_imp, bne_iff_ne]
    rintro hcov rfl
    exact hid ((h.kept x hx).2 hcov)
  · rw [hnext]
    exact h.old
  · intro x hx
    rw [hb.roster_release] at hx
    exact h.kept x (List.mem_of_mem_filter hx)

theorem read_left (h : Shadows c ids b b') (hb : b.Agrees) (id : SubscriptionId) :
    Shadows c ids (b.read id).2 b' := by
  refine h.frame (enroll_act hb (.read id)) rfl ?_ ?_ ?_
  · exact h.connected.trans (connected_act b (a := .read id) nofun nofun).symm
  · rw [backend_read, h.queue]
  · rw [backend_read, h.missed]

theorem read_right (h : Shadows c ids b b') (hb' : b'.Agrees) (id : SubscriptionId) :
    Shadows c ids b (b'.read id).2 := by
  refine h.frame rfl (enroll_act hb' (.read id)) ?_ ?_ ?_
  · exact (connected_act b' (a := .read id) nofun nofun).trans h.connected
  · rw [backend_read, h.queue]
  · rw [backend_read, h.missed]

theorem connect (h : Shadows c ids b b') (runtime : Bool) :
    Shadows c ids (b.act (.connect runtime)) (b'.act (.connect runtime)) := by
  have hact : ∀ x : Bus α, x.act (.connect runtime) =
      { x with connected := x.connected || runtime } := by
    intro x
    cases runtime with
    | false => simp [Bus.act, Bus.connect]
    | true =>
      cases hx : x.connected
      · simp [Bus.act, Bus.connect, hx]
      · simp only [Bus.act, Bus.connect, hx, Bool.not_true, Bool.false_eq_true, if_false, if_true,
          Bool.or_true]
        rw [← hx]
  rw [hact, hact]
  refine h.frame rfl rfl ?_ h.queue h.missed
  rw [h.connected]

theorem rest (h : Shadows c ids b b') (hrest : b.connected = false ∨ b.backend.queue = []) :
    b'.connected = false ∨ b'.backend.queue = [] := by
  rw [h.connected, h.queue]
  refine hrest.imp_right fun hq => ?_
  rw [hq]
  rfl

theorem queue_cons (h : Shadows c ids b b') {e : Event α} {rest : List (Event α)}
    (hq : b.backend.queue = e :: rest) (he : e.channel = c) :
    b'.backend.queue = e :: Event.on c rest := by
  rw [h.queue, hq]
  simp [Event.on, he]

theorem dispatch (h : Shadows c ids b b') (hb : b.Agrees) (hb' : b'.Agrees)
    (hc : (b.handsOut .dispatch).all (·.channel == c) = true) :
    Shadows c ids b.dispatch b'.dispatch := by
  rcases dispatch_cases b with hrest | ⟨e, rest, hconn, hq⟩
  · rw [dispatch_of_rest hrest, dispatch_of_rest (h.rest hrest)]
    exact h
  · have he : e.channel = c := by
      rw [handsOut_cons hconn hq] at hc
      simpa using hc
    have hq' := h.queue_cons hq he
    have hconn' : b'.connected = true := h.connected.trans hconn
    refine h.frame (enroll_act hb .dispatch) (enroll_act hb' .dispatch) ?_ ?_ ?_
    · rw [connected_dispatch, connected_dispatch, h.connected]
    · rw [dispatch_cons hconn hq, dispatch_cons hconn' hq']
    · rw [dispatch_cons hconn hq, dispatch_cons hconn' hq']
      exact h.missed

theorem dispatch_other (h : Shadows c ids b b') (hb : b.Agrees)
    (hc : (b.handsOut .dispatch).all (·.channel == c) = false) : Shadows c ids b.dispatch b' := by
  have hnone : Event.on c (b.handsOut .dispatch) = [] := by
    rcases dispatch_cases b with hrest | ⟨e, rest, hconn, hq⟩
    · rw [handsOut_of_rest hrest]
      rfl
    · rw [handsOut_cons hconn hq] at hc ⊢
      apply on_singleton_of_ne
      simpa using hc
  have hquiet := hb.quiet_dispatch hnone
  refine h.frame (enroll_act hb .dispatch) rfl ?_ ?_ ?_
  · rw [connected_dispatch, h.connected]
  · rw [hquiet.queue, h.queue]
  · rw [hquiet.missed, h.missed]

/-- **Every act keeps the shadow**, confined as it is. -/
theorem act (h : Shadows c ids b b') (hb : b.Agrees) (hb' : b'.Agrees) (a : Act α) :
    Shadows c (b.note c ids a) (b.act a) (b'.run (b.confine c ids a)) := by
  cases a with
  | publish e =>
    simp only [note, confine, beq_iff_eq]
    split
    · next he => exact h.publish hb hb' he
    · next he =>
      have hquiet := quiet_publish b he
      refine h.frame rfl rfl h.connected ?_ ?_
      · exact h.queue.trans hquiet.queue.symm
      · exact h.missed.trans hquiet.missed.symm
  | subscribe scope =>
    simp only [note, confine]
    split
    · next hc => exact h.subscribe hb hb' hc
    · next hc => exact h.subscribe_other hb (Bool.eq_false_iff.2 hc)
  | drop id =>
    simp only [note, confine]
    split
    · next hid => exact h.drop hb hb' hid
    · next hid => exact h.drop_other hb hid
  | read id =>
    simp only [note, confine]
    split
    · exact (h.read_left hb id).read_right hb' _
    · exact h.read_left hb id
  | connect runtime => exact h.connect runtime
  | detach => exact h.frame rfl rfl rfl h.queue h.missed
  | closeAll =>
    refine h.frame (enroll_act hb .closeAll) (enroll_act hb' .closeAll) ?_ ?_ ?_
    · exact (connected_closeAll b').trans (h.connected.trans (connected_closeAll b).symm)
    · exact (congrArg _ (backend_closeAll b')).trans
        (h.queue.trans (congrArg (Event.on c ·.queue) (backend_closeAll b).symm))
    · exact (congrArg _ (backend_closeAll b')).trans
        (h.missed.trans (congrArg (Event.on c ·.missed) (backend_closeAll b).symm))
  | dispatch =>
    simp only [note, confine]
    split
    · next hc => exact h.dispatch hb hb' hc
    · next hc => exact h.dispatch_other hb (Bool.eq_false_iff.2 hc)

theorem silent_of_mem_confine {a x : Act α} (ha : a.Silent) (hx : x ∈ b.confine c ids a) :
    x.Silent := by
  cases a with
  | dispatch => exact absurd rfl ha.1
  | closeAll => exact absurd rfl ha.2
  | _ =>
    simp [confine] at hx
    simp [hx, Act.Silent]

theorem arrivals_closeAll (h : Shadows c ids b b') (hb : b.Agrees) (hb' : b'.Agrees)
    {id : SubscriptionId} (hid : id ∈ ids) : b'.arrivals b'.closeAll (ids.idxOf id) =
      (b.arrivals b.closeAll id).filter (·.concerns c) := by
  by_cases hgone : id ∈ b.ids
  · obtain ⟨x, hx, rfl⟩ := List.mem_map.1 hgone
    have hmem : ids.idxOf x.1 ∈ b'.ids := List.mem_map_of_mem (h.mem_roster hx hid)
    rw [hb.arrivals_closeAll hgone, hb'.arrivals_closeAll hmem]
    rfl
  · have hnone : id ∉ b.closeAll.ids := by rwa [Bus.ids, roster_closeAll]
    have hnone' : ids.idxOf id ∉ b'.closeAll.ids := by
      rw [Bus.ids, roster_closeAll]
      exact h.not_mem_ids hid hgone
    rw [arrivals_of_gone hnone, arrivals_of_gone hnone']
    rfl

theorem arrivals_dispatch (h : Shadows c ids b b') (hb : b.Agrees) (hb' : b'.Agrees)
    {id : SubscriptionId} (hid : id ∈ ids) :
    b'.posted (ids.idxOf id) (b.confine c ids .dispatch) =
      (b.arrivals b.dispatch id).filter (·.concerns c) := by
  have hsame : ∀ x : Bus α, x.connected = false ∨ x.backend.queue = [] → ∀ i,
      x.arrivals x.dispatch i = [] := by
    intro x hrest i
    rw [dispatch_of_rest hrest]
    exact List.drop_length
  rcases dispatch_cases b with hrest | ⟨e, rest, hconn, hq⟩
  · have hrest' : b'.connected = false ∨ b'.backend.queue = [] := h.rest hrest
    simp only [confine, handsOut_of_rest hrest, List.all_nil, if_true, posted, Bus.act]
    rw [hsame b hrest, hsame b' hrest']
    rfl
  · by_cases hgone : id ∈ b.ids
    · cases hs : b.subscription? id with
      | none => exact absurd hgone (subscription?_eq_none.1 hs)
      | some s =>
        obtain ⟨hmem, rfl⟩ := subscription?_eq_some hs
        have hx := mem_roster_of_mem hmem
        have hcov : s.scope.covers c = true := (h.kept _ hx).1 hid
        rw [hb.arrivals_dispatch hs hconn hq]
        simp only [confine, handsOut_cons hconn hq, List.all_cons, List.all_nil, Bool.and_true]
        by_cases he : e.channel = c
        · have hq' : b'.backend.queue = e :: Event.on c rest := h.queue_cons hq he
          have hconn' : b'.connected = true := h.connected.trans hconn
          obtain ⟨s', hs', hscope⟩ :=
            hb'.exists_subscription (mem_under.2 (h.mem_roster hx hid))
          have harrive := hb'.arrivals_dispatch hs' hconn' hq'
          simp only [he, beq_self_eq_true, if_true, posted, List.append_nil, Bus.act]
          rw [harrive, hscope, he, if_pos hcov]
          simp [Delivery.concerns, he]
        · simp only [beq_iff_eq, he, if_false, posted]
          split <;> simp [Delivery.concerns, he]
    · have hnone : id ∉ b.dispatch.ids := by rwa [Bus.ids, roster_dispatch]
      have hnone' : ids.idxOf id ∉ b'.dispatch.ids := by
        rw [Bus.ids, roster_dispatch]
        exact h.not_mem_ids hid hgone
      rw [arrivals_of_gone hnone, confine]
      split
      · simp only [posted, Bus.act, arrivals_of_gone hnone', List.append_nil, List.filter_nil]
      · rfl

/-- **What arrives in a mailbox** on the side of the confined run is what concerns the channel of
what arrives on the other side. -/
theorem arrivals (h : Shadows c ids b b') (hb : b.Agrees) (hb' : b'.Agrees) {id : SubscriptionId}
    (hid : id ∈ ids) (a : Act α) : b'.posted (ids.idxOf id) (b.confine c ids a) =
      (b.arrivals (b.act a) id).filter (·.concerns c) := by
  by_cases ha : a.Silent
  · have hconfined : ∀ x ∈ b.confine c ids a, x.Silent := fun x hx => silent_of_mem_confine ha hx
    rw [posted_of_silent _ hconfined, arrivals_of_silent b id ha, List.filter_nil]
  · cases a with
    | dispatch => exact h.arrivals_dispatch hb hb' hid
    | closeAll => exact (List.append_nil _).trans (h.arrivals_closeAll hb hb' hid)
    | _ => exact absurd ⟨nofun, nofun⟩ ha

/-! ## Runs -/

theorem run (h : Shadows c ids b b') (hb : b.Agrees) (hb' : b'.Agrees) (acts : List (Act α)) :
    Shadows c (b.notes c ids acts) (b.run acts) (b'.run (b.confined c ids acts)) := by
  induction acts generalizing ids b b' with
  | nil => exact h
  | cons a acts ih =>
    rw [confined, run_append]
    exact ih (h.act hb hb' a) (hb.act a) (hb'.run _)

theorem posted (h : Shadows c ids b b') (hb : b.Agrees) (hb' : b'.Agrees) {id : SubscriptionId}
    (hid : id ∈ ids) (acts : List (Act α)) :
    b'.posted (ids.idxOf id) (b.confined c ids acts) =
      (b.posted id acts).filter (·.concerns c) := by
  induction acts generalizing ids b b' with
  | nil => rfl
  | cons a acts ih =>
    -- an identifier keeps its place when others are noted behind it
    have hnoted : id ∈ b.note c ids a ∧ (b.note c ids a).idxOf id = ids.idxOf id := by
      cases a with
      | subscribe scope =>
        rw [note]
        split
        · exact ⟨List.mem_append_left _ hid, List.idxOf_append_of_mem hid⟩
        · exact ⟨hid, rfl⟩
      | _ => exact ⟨hid, rfl⟩
    have hrest := ih (h.act hb hb' a) (hb.act a) (hb'.run _) hnoted.1
    rw [hnoted.2] at hrest
    rw [confined, posted_append, Bus.posted, List.filter_append, h.arrivals hb hb' hid, hrest]

end Shadows

/-- **Channels are isolated.** Let a run be confined to a channel: what is published elsewhere, the
subscriptions that do not cover the channel, and the turns of the dispatcher that hand out something
else are left out; universal subscriptions, connects and disconnects stay. Every run up to a point
is confined to a run up to a point, and there the channel looks the same: the same events are held
back on it, it is live or not, and it has as many subscribers. A subscription that covers the channel
is made on both sides, and its mail on the one side is, on the channel, its mail on the other; if it
is to the channel alone, that is the whole mail. -/
theorem channels_isolated (c : String) (acts : List (Act α)) :
    let part := fun xs : List (Act α) => confined c ({} : Bus α) [] xs
    let b : Bus α := run {} acts
    let b' : Bus α := run {} (part acts)
    Event.on c b'.backend.missed = Event.on c b.backend.missed ∧
    b'.backend.isSubscribed c = b.backend.isSubscribed c ∧
    b'.subscriberCount c = b.subscriberCount c ∧
    (∀ before rest, acts = before ++ rest → part before <+: part acts) ∧
    ∀ before scope rest, acts = before ++ .subscribe scope :: rest → scope.covers c = true →
      let x : Bus α := run {} before
      let x' : Bus α := run {} (part before)
      let mail := x.mail x.nextId (.subscribe scope :: rest)
      ∃ rest', part acts = part before ++ .subscribe scope :: rest' ∧
        x'.mail x'.nextId (.subscribe scope :: rest') = mail.filter (·.concerns c) ∧
        (scope = .channel c → mail.filter (·.concerns c) = mail) := by
  intro part b b'
  have hshadow : Shadows c (notes c ({} : Bus α) [] acts) b b' :=
    (shadows_empty c).run agrees_empty agrees_empty acts
  have hb : b.Agrees := agrees_run acts
  have hb' : b'.Agrees := agrees_run (part acts)
  refine ⟨?_, ?_, ?_, ?_, ?_⟩
  · rw [hshadow.missed, Event.on, Event.on, List.filter_filter]
    simp only [Bool.and_self]
  · rw [Bool.eq_iff_iff, hb'.isSubscribed_iff, hb.isSubscribed_iff, hshadow.under, Ne,
      List.map_eq_nil_iff]
  · change (b'.table.listed (.channel c)).length = (b.table.listed (.channel c)).length
    rw [hb'.listed, hb.listed, hshadow.under, List.length_map]
  · rintro before rest rfl
    simp only [part, confined_append]
    exact List.prefix_append _ _
  · rintro before scope rest rfl hc x x' mail
    have hx : x.Agrees := agrees_run before
    have hx' : x'.Agrees := agrees_run (part before)
    have hpoint : Shadows c (notes c ({} : Bus α) [] before) x x' :=
      (shadows_empty c).run agrees_empty agrees_empty before
    have hmade := hpoint.subscribe hx hx' hc
    refine ⟨(x.subscribe scope).confined c (notes c ({} : Bus α) [] before ++ [x.nextId]) rest,
      ?_, ?_, ?_⟩
    · simp only [part, confined_append, confined, confine, note, hc, if_true]
      rfl
    · -- the new subscription has the last place among those that are noted
      have hplace : (notes c ({} : Bus α) [] before ++ [x.nextId]).idxOf x.nextId = x'.nextId := by
        have hnew : x.nextId ∉ notes c ({} : Bus α) [] before := fun hid =>
          Nat.lt_irrefl _ (hpoint.old _ hid)
        rw [List.idxOf_append_of_notMem hnew, List.idxOf_cons_self, hpoint.nextId, Nat.add_zero]
      have hposted := hmade.posted (hx.subscribe scope) (hx'.subscribe scope)
        (List.mem_append_right _ List.mem_cons_self) rest
      rw [hx'.mail_subscribe, ← hplace, hposted]
      simp only [mail, hx.mail_subscribe]
    · rintro rfl
      rw [List.filter_eq_self]
      intro d hd
      simp only [mail, hx.mail_subscribe] at hd
      exact (hx.subscribe _).concerns_of_posted (hx.granted_subscribe _) hd

end Bus
end Parley
