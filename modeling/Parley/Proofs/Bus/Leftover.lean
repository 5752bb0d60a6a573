import Parley.Proofs.Bus.Conduct

/-!
# What a disconnect leaves queued

A disconnect takes the dispatcher off the bus and puts the mark of the end into every mailbox; the
queue stays as it is. So what was queued then is the first that the next dispatcher hands out
(`queue_prefix_run`). The subscriptions that were closed read nothing of it, for it comes behind the
mark of the end (`Sealed`); a subscription that is made later does (`leftovers_handed_out`).
-/

set_option autoImplicit false

namespace Parley.Bus

variable {α : Type} {b : Bus α}

/-! ## The queue -/

/-- What is queued is handed out in its turn, or still queued. -/
theorem queue_prefix_act (b : Bus α) (a : Act α) :
    b.backend.queue <+: b.handsOut a ++ (b.act a).backend.queue := by
  rcases lists_cases b a with
    ⟨e, rfl⟩ | ⟨scope, rfl, hopen⟩ | ⟨e, rfl, hqueue, hout, -⟩ | ⟨-, hout, hqueue, -⟩
  · change b.backend.queue <+: (b.backend.publish e).queue
    unfold Backend.publish
    split
    · exact List.prefix_append _ _
    · exact List.prefix_rfl
  · change b.backend.queue <+: (b.act (.subscribe scope)).backend.queue
    rw [hopen]
    cases scope <;> exact List.prefix_append _ _
  · exact ⟨[], by rw [hout, hqueue, List.append_nil]; rfl⟩
  · exact ⟨[], by rw [hout, hqueue, List.append_nil]; rfl⟩

theorem queue_prefix_run (b : Bus α) (acts : List (Act α)) :
    b.backend.queue <+: b.handed acts ++ (b.run acts).backend.queue := by
  induction acts generalizing b with
  | nil => exact List.prefix_rfl
  | cons a acts ih =>
    rw [handed, run_cons, List.append_assoc]
    exact (queue_prefix_act b a).trans ((List.prefix_append_right_inj _).2 (ih (b.act a)))

/-- Once nothing is pending, everything that was queued has been handed out. -/
theorem Counted.queue_handed (h : b.Counted) {acts : List (Act α)}
    (hidle : (b.run acts).isIdle = true) : b.backend.queue <+: b.handed acts := by
  have hprefix := queue_prefix_run b acts
  rwa [(h.run acts).queue_eq_nil hidle, List.append_nil] at hprefix

/-- Only the dispatcher hands anything out. -/
theorem handed_of_no_dispatch {acts : List (Act α)} (hacts : .dispatch ∉ acts) :
    b.handed acts = [] := by
  induction acts generalizing b with
  | nil => rfl
  | cons a acts ih =>
    rw [List.mem_cons, not_or] at hacts
    have hone : b.handsOut a = [] := by
      cases a with
      | dispatch => exact absurd rfl hacts.1
      | _ => rfl
    rw [handed, hone, ih hacts.2]
    rfl

/-- Without a connection it hands nothing out. -/
theorem handed_of_not_connected (h : b.connected = false) {acts : List (Act α)}
    (hacts : ∀ runtime, .connect runtime ∉ acts) : b.handed acts = [] := by
  induction acts generalizing b with
  | nil => rfl
  | cons a acts ih =>
    have hone : b.handsOut a = [] := by
      cases a with
      | dispatch => rw [handsOut, h, if_neg Bool.false_ne_true]
      | _ => rfl
    have hnext : (b.run [a]).connected = false := not_connected_run h fun runtime hm =>
      hacts runtime (List.mem_singleton.1 hm ▸ List.mem_cons_self)
    rw [handed, hone, List.nil_append]
    exact ih hnext fun runtime hm => hacts runtime (List.mem_cons_of_mem _ hm)

/-! ## Behind the mark of the end -/

/-- What an act does to a subscription that it does not drop: it reads from it, or puts deliveries
behind what lies in its mailbox. -/
theorem Agrees.subscription?_step (h : b.Agrees) {id : SubscriptionId} {s : Subscription α}
    (hs : b.subscription? id = some s) {a : Act α} (ha : a.drops id = false) :
    a = .read id ∧ (b.act a).subscription? id = some s.read.2 ∨
      ∃ ds, (b.act a).subscription? id = some { s with inbox := s.inbox ++ ds } := by
  have hsame : ∀ b' : Bus α, b'.subscription? id = b.subscription? id →
      ∃ ds, b'.subscription? id = some { s with inbox := s.inbox ++ ds } := fun b' hb =>
    ⟨[], by rw [hb, hs, List.append_nil]⟩
  cases a with
  | publish e => exact .inr (hsame _ rfl)
  | subscribe scope =>
    refine .inr (hsame _ ?_)
    rw [Bus.act, Bus.subscribe, subscription?, List.find?_append, show List.find? _ _ = _ from hs]
    exact hs.symm
  | drop i =>
    have hi : i ≠ id := by simpa [Act.drops] using ha
    exact .inr (hsame _ (subscription?_filter b _ hi (subscriptions_release b i)))
  | read i =>
    by_cases hi : i = id
    · subst hi
      exact .inl ⟨rfl, subscription?_read_self hs⟩
    · exact .inr (hsame _ (subscription?_read_of_ne b hi))
  | connect runtime =>
    rcases act_connect b runtime with hb | hb <;> rw [hb] <;> exact .inr (hsame _ rfl)
  | detach => exact .inr (hsame _ rfl)
  | closeAll => exact .inr ⟨_, subscription?_closeAll hs⟩
  | dispatch =>
    rcases dispatch_cases b with hr | ⟨e, rest, hc, hq⟩
    · exact .inr (hsame _ (congrArg (·.subscription? id) (dispatch_of_rest hr)))
    · exact .inr ⟨_, h.subscription?_dispatch hs hc hq⟩

/-- The subscription, if it still exists, has read the mark of the end or will read it behind no
other events than `es`. -/
structure Sealed (b : Bus α) (id : SubscriptionId) (es : List (Event α)) : Prop where
  old : id < b.nextId
  marked : ∀ s, b.subscription? id = some s → s.closed = true ∨
    ∃ ds rest, s.inbox = ds ++ .closed :: rest ∧ ∀ e ∈ Delivery.events ds, e ∈ es

/-- A mailbox that exists is registered, so that the end of the bus reaches it. -/
theorem Agrees.count_all_pos (h : b.Agrees) {id : SubscriptionId} {s : Subscription α}
    (hs : b.subscription? id = some s) : 0 < b.table.all.count s.id := by
  refine List.count_pos_iff.2 ?_
  have hlisted : s.id ∈ b.table.listed s.scope := by
    rw [h.listed]
    exact mem_under.2 (mem_roster_of_mem (subscription?_eq_some hs).1)
  cases hscope : s.scope with
  | universal =>
    rw [hscope] at hlisted
    exact List.mem_append_right _ hlisted
  | channel c =>
    rw [hscope] at hlisted
    have hentry : b.table.mailboxes c ≠ [] := List.ne_nil_of_mem hlisted
    obtain ⟨e, he, hc⟩ := List.any_eq_true.1 ((Table.has_iff h.table c).2 hentry)
    have hmail := Table.mailboxes_of_mem h.table he
    rw [eq_of_beq hc] at hmail
    exact List.mem_append_left _ (List.mem_flatMap.2 ⟨e, he, hmail ▸ hlisted⟩)

/-- Every mailbox is sealed when the mark of the end is put into it. -/
theorem Agrees.sealed_closeAll (h : b.Agrees) {id : SubscriptionId} (hid : id ∈ b.ids) :
    b.closeAll.Sealed id (Delivery.events (b.inbox id)) := by
  refine ⟨?_, fun s' hs' => ?_⟩
  · rw [nextId, table_closeAll]
    exact h.lt_of_mem_ids hid
  · cases hs : b.subscription? id with
    | none => exact absurd hid (subscription?_eq_none.1 hs)
    | some s =>
      have hmark := h.count_all_pos hs
      rw [subscription?_closeAll hs] at hs'
      cases hs'
      refine .inr ⟨s.inbox, List.replicate (b.table.all.count s.id - 1) .closed, ?_, ?_⟩
      · rw [← List.replicate_succ, Nat.sub_add_cancel hmark]
      · rw [inbox_of_subscription? hs]
        exact fun e he => he

theorem Agrees.sealed_act (h : b.Agrees) {id : SubscriptionId} {es : List (Event α)}
    (hb : b.Sealed id es) (a : Act α) : (b.act a).Sealed id es := by
  refine ⟨Nat.lt_of_lt_of_le hb.old (h.nextId_act a), fun s' hs' => ?_⟩
  cases hs : b.subscription? id with
  | none =>
    have hgone := (h.gone_act hb.old (subscription?_eq_none.1 hs) a).2
    rw [subscription?_eq_none.2 hgone] at hs'
    cases hs'
  | some s =>
    cases hdrop : a.drops id
    · rcases h.subscription?_step hs hdrop with ⟨-, hread⟩ | ⟨ds, hput⟩
      · rw [hread] at hs'
        cases hs'
        rcases hb.marked s hs with hclosed | ⟨ds, rest, hinbox, hds⟩
        · rw [Subscription.read_of_closed hclosed]
          exact .inl hclosed
        · unfold Subscription.read
          split
          · next hclosed => exact .inl hclosed
          · rw [hinbox]
            cases ds with
            | nil => exact .inl rfl
            | cons d ds =>
              cases d with
              | closed => exact .inl rfl
              | event e => exact .inr ⟨ds, rest, rfl, fun x hx => hds x (List.mem_cons_of_mem _ hx)⟩
      · rw [hput] at hs'
        cases hs'
        refine (hb.marked s hs).imp_right fun ⟨xs, rest, hinbox, hxs⟩ => ⟨xs, rest ++ ds, ?_, hxs⟩
        rw [hinbox, List.append_assoc]
        rfl
    · obtain rfl := Act.eq_drop hdrop
      rw [Bus.act, subscription?_eq_none.2 (h.gone_release id)] at hs'
      cases hs'

theorem Agrees.sealed_run (h : b.Agrees) {id : SubscriptionId} {es : List (Event α)}
    (hb : b.Sealed id es) (acts : List (Act α)) : (b.run acts).Sealed id es := by
  induction acts generalizing b with
  | nil => exact hb
  | cons a acts ih => exact ih (h.act a) (h.sealed_act hb a)

theorem Sealed.read {id : SubscriptionId} {es : List (Event α)} (hb : b.Sealed id es) {e : Event α}
    (he : (b.read id).1 = .event e) : e ∈ es := by
  cases hs : b.subscription? id with
  | none =>
    rw [Bus.read, hs] at he
    cases he
  | some s =>
    replace he : s.read.1 = .event e := by rwa [Bus.read, hs] at he
    rcases hb.marked s hs with hclosed | ⟨ds, rest, hinbox, hds⟩
    · rw [Subscription.read_of_closed hclosed] at he
      cases he
    · simp only [Subscription.read, hinbox] at he
      split at he
      · cases he
      · cases ds with
        | nil => cases he
        | cons d ds =>
          cases d with
          | closed => cases he
          | event x =>
            cases he
            exact hds _ List.mem_cons_self

/-! ## After a disconnect -/

/-- **What is queued when a disconnect completes** is not lost. Whatever happens then, it is handed
out first, in its order, or still queued, and as long as nobody connects the bus, it is still queued.
A later join waits until all of it has been handed out. No subscription that the disconnect closed
reads any of it, only what lay in its mailbox; a subscription made before any of it is handed out is
mailed what it covers, before anything else, once a join can finish. -/
theorem leftovers_handed_out (before between rest : List (Act α)) :
    let b : Bus α := run {} (before ++ .detach :: between)
    let left := b.closeAll.backend.queue
    left = b.backend.queue ∧
      left <+: b.closeAll.handed rest ++ (b.closeAll.run rest).backend.queue ∧
      (b.connected = false → (∀ runtime, .connect runtime ∉ rest) → b.closeAll.handed rest = []) ∧
      ((b.closeAll.run rest).isIdle = true → left <+: b.closeAll.handed rest) ∧
      (∀ id ∈ b.ids, ∀ e, ((b.closeAll.run rest).read id).1 = .event e →
        e ∈ Delivery.events (b.inbox id)) ∧
      ∀ mid scope after, .dispatch ∉ mid →
        let x := b.closeAll.run mid
        let kept := after.takeWhile (!·.drops x.nextId)
        (x.run (.subscribe scope :: kept)).isIdle = true →
          left.filter (scope.covers ·.channel) <+:
            Delivery.events (x.mail x.nextId (.subscribe scope :: after)) := by
  intro b left
  have hb : b.Agrees := agrees_run _
  have h : b.closeAll.Agrees := hb.act .closeAll
  have hcounted : b.closeAll.Counted := (counted_run _).act .closeAll
  refine ⟨congrArg Backend.queue (backend_closeAll b), queue_prefix_run _ rest, fun hc hrest => ?_,
    hcounted.queue_handed, fun id hid e he => ?_, ?_⟩
  · exact handed_of_not_connected ((connected_closeAll b).trans hc) hrest
  · exact (h.sealed_run (hb.sealed_closeAll hid) rest).read he
  · intro mid scope after hmid x kept hidle
    have hx : x.Agrees := h.run mid
    have hmail : Delivery.events (x.mail x.nextId (.subscribe scope :: after)) =
        (x.handed (.subscribe scope :: kept)).filter (scope.covers ·.channel) :=
      (hx.subscribe scope).events_mail (hx.subscription?_subscribe scope) after
    -- nothing has been handed out until then, so what is left stands first in the queue
    have hleft : left <+: x.backend.queue := by
      have hprefix := queue_prefix_run b.closeAll mid
      rwa [handed_of_no_dispatch hmid] at hprefix
    rw [hmail]
    exact (hleft.trans ((hcounted.run mid).queue_handed hidle)).filter _

/-- A disconnect, another subscription to the channel, and a connect. -/
theorem leftovers_handed_out_reconnected :
    let event : Event Nat := { channel := "a", payload := 1 }
    let before : List (Act Nat) := [.connect true, .subscribe (.channel "a"), .publish event]
    let b : Bus Nat := run {} (before ++ .detach :: [])
    let after : List (Act Nat) := [.connect true, .dispatch]
    .dispatch ∉ ([] : List (Act Nat)) ∧
      (b.closeAll.run (.subscribe (.channel "a") :: after.takeWhile (!·.drops 1))).isIdle = true ∧
      b.backend.queue.filter ((Scope.channel "a").covers ·.channel) <+:
        Delivery.events (b.closeAll.mail 1 (.subscribe (.channel "a") :: after)) := by
  intro event before b after
  have hidle : (b.closeAll.run
      (.subscribe (.channel "a") :: after.takeWhile (!·.drops 1))).isIdle = true := by decide
  exact ⟨List.not_mem_nil, hidle, (leftovers_handed_out before [] []).2.2.2.2.2 []
    (.channel "a") after List.not_mem_nil hidle⟩

/-- **A leftover is delivered**: an event that is queued when a disconnect completes keeps a join
waiting after the next connect, and then it is read from a subscription made after the disconnect. -/
theorem leftover_read :
    let event : Event Nat := { channel := "a", payload := 1 }
    let b : Bus Nat := run {} [.connect true, .subscribe (.channel "a"), .publish event, .detach,
      .closeAll]
    let later : Bus Nat := b.run [.subscribe (.channel "a"), .connect true]
    b.backend.queue.map (·.payload) = [1] ∧ later.isIdle = false ∧
      ((later.dispatch.read 1).1 matches .event ⟨"a", 1⟩) = true := by
  decide

end Parley.Bus
