import Parley.Proofs.Bus.Agreement

/-!
# Delivery without gaps

The events that were published and not handed out wait in the queue or are held back, and on every
channel they are what follows the events handed out (`backlog_run`). The mail of a subscription is
what is handed out while it is registered and covers (`events_mail`). Together: on a channel that a
subscription covers its mail is a segment of what is published there (`gap_free`).
-/

set_option autoImplicit false

namespace Parley.Bus

variable {α : Type}

/-! ## The backlog -/

/-- The events that were published and not handed out. -/
def backlog (b : Bus α) : List (Event α) := b.backend.queue ++ b.backend.missed

theorem shut_lists {backend backend' : Backend α} {scope : Scope}
    (h : shut backend scope = .ok backend') :
    backend'.queue = backend.queue ∧ backend'.missed = backend.missed := by
  cases scope <;> simp only [shut, Backend.unsubscribe, Backend.universalUnsubscribe] at h <;>
    split at h <;> cases h <;> exact ⟨rfl, rfl⟩

theorem release_lists (b : Bus α) (id : SubscriptionId) :
    (b.release id).backend.queue = b.backend.queue ∧
      (b.release id).backend.missed = b.backend.missed := by
  simp only [release, releaseReport]
  split
  · exact ⟨rfl, rfl⟩
  · split
    · split
      · next h => exact shut_lists h
      · exact ⟨rfl, rfl⟩
    · exact ⟨rfl, rfl⟩

/-- **What an act does to the two lists**: it publishes, it opens a scope in which nobody had listened,
it hands out what stands in front, or it leaves both as they are. -/
theorem lists_cases (b : Bus α) (a : Act α) :
    (∃ e, a = .publish e) ∨
    (∃ scope, a = .subscribe scope ∧ (b.act a).backend = open? b.backend scope) ∨
    (∃ e, a = .dispatch ∧ b.backend.queue = e :: (b.act a).backend.queue ∧ b.handsOut a = [e] ∧
      (b.act a).backend.missed = b.backend.missed) ∨
    published [a] = [] ∧ b.handsOut a = [] ∧ (b.act a).backend.queue = b.backend.queue ∧
      (b.act a).backend.missed = b.backend.missed := by
  cases a with
  | publish e => exact .inl ⟨e, rfl⟩
  | subscribe scope =>
    cases hl : b.table.isListed scope with
    | false => exact .inr (.inl ⟨scope, rfl, by rw [act, subscribe, hl]; rfl⟩)
    | true =>
      have hsame : (b.subscribe scope).backend = b.backend := by rw [subscribe, hl]; rfl
      exact .inr (.inr (.inr ⟨rfl, rfl, congrArg _ hsame, congrArg _ hsame⟩))
  | drop id => exact .inr (.inr (.inr ⟨rfl, rfl, release_lists b id⟩))
  | read id =>
    have hsame := backend_read b id
    exact .inr (.inr (.inr ⟨rfl, rfl, congrArg _ hsame, congrArg _ hsame⟩))
  | connect runtime =>
    refine .inr (.inr (.inr ⟨rfl, rfl, ?_⟩))
    rcases act_connect b runtime with hb | hb <;> rw [hb] <;> exact ⟨rfl, rfl⟩
  | detach => exact .inr (.inr (.inr ⟨rfl, rfl, rfl, rfl⟩))
  | closeAll =>
    have hsame := backend_closeAll b
    exact .inr (.inr (.inr ⟨rfl, rfl, congrArg _ hsame, congrArg _ hsame⟩))
  | dispatch =>
    rcases dispatch_cases b with hr | ⟨e, rest, hc, hq⟩
    · have hsame := congrArg backend (dispatch_of_rest hr)
      exact .inr (.inr (.inr ⟨rfl, handsOut_of_rest hr, congrArg _ hsame, congrArg _ hsame⟩))
    · refine .inr (.inr (.inl ⟨e, rfl, ?_, handsOut_cons hc hq, ?_⟩))
      · rw [act, dispatch_cons hc hq, hq]
      · rw [act, dispatch_cons hc hq]

/-- What is held back on a channel is replayed behind the queue, so the order stays. -/
theorem on_open? (backend : Backend α) (scope : Scope) (c : String) :
    Event.on c ((open? backend scope).queue ++ (open? backend scope).missed) =
      Event.on c (backend.queue ++ backend.missed) := by
  cases scope with
  | universal => simp [open?, Backend.universalSubscribe, Backend.enqueue]
  | channel d =>
    rw [open?, Backend.queue_subscribe, Backend.missed_subscribe, List.append_assoc,
      Event.on_append, Event.on_append c backend.queue, Event.on_append]
    congr 1
    simp only [Event.on, List.filter_filter]
    by_cases hd : d = c
    · subst hd
      simp
    · have hn : backend.missed.filter (fun e => e.channel == c && e.channel == d) = [] :=
        List.filter_eq_nil_iff.2 fun e _ => by
          simp only [Bool.and_eq_true, beq_iff_eq, not_and]
          rintro rfl rfl
          exact hd rfl
      rw [hn, List.nil_append]
      refine List.filter_congr fun e _ => ?_
      rw [Bool.and_eq_left_iff_imp, beq_iff_eq, bne_iff_ne]
      rintro rfl
      exact Ne.symm hd

/-- What is published on a channel comes behind all others of that channel: where somebody hears it,
nothing is held back, and elsewhere nothing is queued behind what is held back. -/
theorem on_publish {backend : Backend α}
    (h : ∀ e ∈ backend.missed, backend.hears e.channel = false) (e : Event α) (c : String) :
    Event.on c ((backend.publish e).queue ++ (backend.publish e).missed) =
      Event.on c (backend.queue ++ backend.missed ++ [e]) := by
  cases hh : backend.hears e.channel
  · rw [Backend.publish_of_unheard hh, List.append_assoc]
  · rw [Backend.publish_of_heard hh]
    by_cases hc : e.channel = c
    · have hm : Event.on c backend.missed = [] := List.filter_eq_nil_iff.2 fun x hx => by
        rw [beq_iff_eq]
        intro hx'
        have hn := h x hx
        rw [hx', ← hc, hh] at hn
        cases hn
      change Event.on c (backend.queue ++ [e] ++ backend.missed) = _
      rw [Event.on_append, Event.on_append, Event.on_append c (_ ++ _), Event.on_append,
        hm, List.append_nil, List.append_nil]
    · simp [Backend.enqueue, Event.on, hc]

theorem Agrees.backlog_publish {b : Bus α} (h : b.Agrees) (e : Event α) (c : String) :
    Event.on c (b.publish e).backlog = Event.on c (b.backlog ++ [e]) :=
  on_publish h.held e c

/-- One act moves nothing out of its order. -/
theorem Agrees.backlog_act {b : Bus α} (h : b.Agrees) (a : Act α) (c : String) :
    Event.on c b.backlog ++ Event.on c (published [a]) =
      Event.on c (b.handsOut a) ++ Event.on c (b.act a).backlog := by
  rcases lists_cases b a with
    ⟨e, rfl⟩ | ⟨scope, rfl, hopen⟩ | ⟨e, rfl, hqueue, hout, hmissed⟩ | ⟨hnone, hout, hqueue, hmissed⟩
  · change _ ++ Event.on c [e] = Event.on c (b.publish e).backlog
    rw [h.backlog_publish, Event.on_append]
  · change _ ++ [] = Event.on c (b.act (.subscribe scope)).backlog
    rw [List.append_nil, backlog, backlog, hopen]
    exact (on_open? b.backend scope c).symm
  · change _ ++ [] = _
    rw [List.append_nil, hout, backlog, backlog, hqueue, hmissed, ← Event.on_append]
    rfl
  · rw [hnone, hout, backlog, backlog, hqueue, hmissed]
    exact List.append_nil _

/-- On every channel the backlog is what follows the events handed out. -/
theorem Agrees.backlog_run {b : Bus α} (h : b.Agrees) (acts : List (Act α)) (c : String) :
    Event.on c b.backlog ++ Event.on c (published acts) =
      Event.on c (b.handed acts) ++ Event.on c (b.run acts).backlog := by
  induction acts generalizing b with
  | nil => simp [published, handed]
  | cons a acts ih =>
    calc Event.on c b.backlog ++ Event.on c (published (a :: acts))
        = Event.on c b.backlog ++ Event.on c (published [a]) ++ Event.on c (published acts) := by
          rw [← List.singleton_append, published_append, Event.on_append, List.append_assoc]
      _ = Event.on c (b.handsOut a) ++
            (Event.on c (b.act a).backlog ++ Event.on c (published acts)) := by
          rw [h.backlog_act, List.append_assoc]
      _ = Event.on c (b.handed (a :: acts)) ++ Event.on c (b.run (a :: acts)).backlog := by
          rw [ih (h.act a), handed, Event.on_append, List.append_assoc, run_cons]

/-- What was published is what was handed out and, behind that, what waits. -/
theorem published_eq (acts : List (Act α)) (c : String) :
    Event.on c (published acts) =
      Event.on c (handed {} acts) ++ Event.on c (run {} acts : Bus α).backlog :=
  agrees_empty.backlog_run acts c

/-! ## The mail of a subscription -/

theorem subscription?_map (b b' : Bus α) (id : SubscriptionId) (f : Subscription α → Subscription α)
    (hf : ∀ s, (f s).id = s.id) (hb : b'.subscriptions = b.subscriptions.map f) :
    b'.subscription? id = (b.subscription? id).map f := by
  rw [subscription?, hb, List.find?_map, subscription?]
  simp only [Function.comp_def, hf]

theorem subscription?_filter (b b' : Bus α) {id i : SubscriptionId} (hi : i ≠ id)
    (hb : b'.subscriptions = b.subscriptions.filter (·.id != i)) :
    b'.subscription? id = b.subscription? id := by
  rw [subscription?, hb, List.find?_filter, subscription?]
  congr 1
  funext s
  by_cases hs : s.id = id
  · simp [hs, Ne.symm hi]
  · simp [hs]

theorem subscriptions_release (b : Bus α) (id : SubscriptionId) :
    (b.release id).subscriptions = b.subscriptions.filter (·.id != id) := by
  simp only [release, releaseReport]
  split
  · next hn =>
    refine (List.filter_eq_self.2 fun s hs => ?_).symm
    have := List.find?_eq_none.1 hn s hs
    simpa using this
  · split
    · split <;> rfl
    · rfl

/-- A subscription is mentioned once among those an event goes to if it covers the channel, and not
at all otherwise. -/
theorem Agrees.count_recipients {b : Bus α} (h : b.Agrees) {id : SubscriptionId} {scope : Scope}
    (hid : (id, scope) ∈ b.roster) (c : String) :
    (b.recipients c).count id = if scope.covers c then 1 else 0 := by
  have hcount : ∀ other, (b.table.listed other).count id = if other = scope then 1 else 0 := by
    intro other
    rw [(h.nodup_listed other).count, h.listed]
    by_cases ho : other = scope
    · rw [if_pos ho, if_pos (mem_under.2 (ho ▸ hid))]
    · rw [if_neg ho, if_neg fun hm => ho (h.scope_unique (mem_under.1 hm) hid)]
  change (b.table.listed (.channel c) ++ b.table.listed .universal).count id = _
  rw [List.count_append, hcount, hcount]
  cases scope with
  | universal => simp [Scope.covers]
  | channel d => by_cases hd : c = d <;> simp [Scope.covers, hd, Ne.symm]

theorem subscription?_closeAll {b : Bus α} {id : SubscriptionId} {s : Subscription α}
    (hs : b.subscription? id = some s) :
    b.closeAll.subscription? id =
      some { s with inbox := s.inbox ++ List.replicate (b.table.all.count s.id) .closed } := by
  rw [closeAll, foldl_deliver, subscription?_map b _ id (fun s =>
    { s with inbox := s.inbox ++ List.replicate (b.table.all.count s.id) .closed })
    (fun _ => rfl) rfl, hs]
  rfl

/-- Handing an event out puts it into the mailbox of a subscription that covers it, once. -/
theorem Agrees.subscription?_dispatch {b : Bus α} (h : b.Agrees) {id : SubscriptionId}
    {s : Subscription α} (hs : b.subscription? id = some s) {e : Event α} {rest : List (Event α)}
    (hc : b.connected = true) (hq : b.backend.queue = e :: rest) :
    b.dispatch.subscription? id = some { s with
      inbox := s.inbox ++ if s.scope.covers e.channel then [.event e] else [] } := by
  obtain ⟨hmem, rfl⟩ := subscription?_eq_some hs
  rw [dispatch_cons hc hq, subscription?_map b _ s.id (fun s => { s with
    inbox := s.inbox ++ List.replicate ((b.recipients e.channel).count s.id) (.event e) })
    (fun _ => rfl) rfl, hs, Option.map_some, h.count_recipients (mem_roster_of_mem hmem)]
  by_cases hcov : s.scope.covers e.channel = true <;> simp [hcov]

theorem subscription?_read_of_ne (b : Bus α) {id i : SubscriptionId} (hi : i ≠ id) :
    (b.read i).2.subscription? id = b.subscription? id := by
  unfold Bus.read
  split
  · rfl
  · refine (subscription?_map b _ id _ (fun x => ?_) rfl).trans ?_
    · split
      · exact Subscription.id_read x
      · rfl
    · cases hs : b.subscription? id with
      | none => rfl
      | some s =>
        rw [Option.map_some, if_neg]
        simpa [(subscription?_eq_some hs).2] using Ne.symm hi

theorem subscription?_read_self {b : Bus α} {id : SubscriptionId} {s : Subscription α}
    (hs : b.subscription? id = some s) : (b.read id).2.subscription? id = some s.read.2 := by
  obtain ⟨-, rfl⟩ := subscription?_eq_some hs
  rw [Bus.read, hs]
  refine (subscription?_map b (b.modify s.id (·.read.2)) s.id _ (fun x => ?_) rfl).trans ?_
  · split
    · exact Subscription.id_read x
    · rfl
  · rw [hs, Option.map_some, if_pos (beq_self_eq_true _)]

/-- A read takes the oldest delivery of its own mailbox, and nothing of another. -/
theorem subscription?_read {b : Bus α} {id : SubscriptionId} {s : Subscription α}
    (hs : b.subscription? id = some s) (i : SubscriptionId) :
    ∃ s', (b.read i).2.subscription? id = some s' ∧ s'.scope = s.scope ∧
      b.takenBy id (.read i) ++ s'.inbox = s.inbox := by
  by_cases hi : i = id
  · subst hi
    obtain ⟨-, rfl⟩ := subscription?_eq_some hs
    refine ⟨s.read.2, subscription?_read_self hs, scope_read s, ?_⟩
    simp only [takenBy, inbox, hs, true_and, Option.any_some, Option.map_some, Option.getD_some]
    unfold Subscription.read
    cases hc : s.closed
    · cases hin : s.inbox with
      | nil => simp [hin]
      | cons d rest => cases d <;> simp
    · simp
  · refine ⟨s, (subscription?_read_of_ne b hi).trans hs, rfl, ?_⟩
    rw [takenBy, if_neg fun h => hi h.1]
    rfl

/-- What an act does to a subscription that it does not drop: what is taken out of the mailbox and
what then lies in it are what lay there and what is handed out, as far as it is covered. -/
theorem Agrees.subscription?_act {b : Bus α} (h : b.Agrees) {id : SubscriptionId}
    {s : Subscription α} (hs : b.subscription? id = some s) {a : Act α} (ha : a.drops id = false) :
    ∃ s', (b.act a).subscription? id = some s' ∧ s'.scope = s.scope ∧
      Delivery.events (b.takenBy id a ++ s'.inbox) =
        Delivery.events s.inbox ++ (b.handsOut a).filter (s.scope.covers ·.channel) := by
  have hsame : ∀ b' : Bus α, b'.subscription? id = b.subscription? id →
      ∃ s', b'.subscription? id = some s' ∧ s'.scope = s.scope ∧
        Delivery.events ([] ++ s'.inbox) = Delivery.events s.inbox ++ [] := fun b' hb =>
    ⟨s, hb.trans hs, rfl, (List.append_nil _).symm⟩
  cases a with
  | publish e => exact hsame _ rfl
  | subscribe scope =>
    refine hsame _ ?_
    rw [Bus.act, Bus.subscribe, subscription?, List.find?_append, show List.find? _ _ = _ from hs]
    exact hs.symm
  | drop i =>
    have hi : i ≠ id := by simpa [Act.drops] using ha
    rw [takenBy, if_neg hi]
    exact hsame _ (subscription?_filter b _ hi (subscriptions_release b i))
  | read i =>
    obtain ⟨s', hs', hscope, hin⟩ := subscription?_read hs i
    exact ⟨s', hs', hscope, by rw [hin]; exact (List.append_nil _).symm⟩
  | connect runtime => rcases act_connect b runtime with hb | hb <;> rw [hb] <;> exact hsame _ rfl
  | detach => exact hsame _ rfl
  | closeAll =>
    refine ⟨_, subscription?_closeAll hs, rfl, ?_⟩
    simp [takenBy, handsOut, Delivery.events, Delivery.event?]
  | dispatch =>
    rcases dispatch_cases b with hr | ⟨e, rest, hc, hq⟩
    · rw [handsOut_of_rest hr]
      exact hsame _ (congrArg (·.subscription? id) (dispatch_of_rest hr))
    · refine ⟨_, h.subscription?_dispatch hs hc hq, rfl, ?_⟩
      rw [handsOut_cons hc hq]
      by_cases hcov : s.scope.covers e.channel = true <;>
        simp [takenBy, Delivery.events, Delivery.event?, hcov]

/-- As long as it is not dropped, a subscription is mailed what is handed out and covered. -/
theorem Agrees.events_mail_of_kept {b : Bus α} (h : b.Agrees) {id : SubscriptionId}
    {s : Subscription α} (hs : b.subscription? id = some s) {acts : List (Act α)}
    (ha : ∀ a ∈ acts, a.drops id = false) :
    Delivery.events (b.mail id acts) =
      Delivery.events s.inbox ++ (b.handed acts).filter (s.scope.covers ·.channel) := by
  induction acts generalizing b s with
  | nil => simp [mail, taken, handed, inbox, hs]
  | cons a acts ih =>
    obtain ⟨s', hs', hscope, hevents⟩ := h.subscription?_act hs (ha a List.mem_cons_self)
    have hmail : b.mail id (a :: acts) = b.takenBy id a ++ (b.act a).mail id acts :=
      List.append_assoc _ _ _
    rw [hmail, Delivery.events_append,
      ih (h.act a) hs' fun x hx => ha x (List.mem_cons_of_mem _ hx), ← List.append_assoc,
      ← Delivery.events_append, hevents, hscope, handed, List.filter_append, List.append_assoc]

theorem Agrees.nextId_act {b : Bus α} (h : b.Agrees) (a : Act α) : b.nextId ≤ (b.act a).nextId := by
  rw [show (b.act a).nextId = _ from congrArg Prod.fst (enroll_act h a)]
  cases a with
  | subscribe scope => exact Nat.le_succ _
  | _ => exact Nat.le_refl _

theorem Agrees.nextId_run {b : Bus α} (h : b.Agrees) (acts : List (Act α)) :
    b.nextId ≤ (b.run acts).nextId := by
  induction acts generalizing b with
  | nil => exact Nat.le_refl _
  | cons a acts ih => exact Nat.le_trans (h.nextId_act a) (ih (h.act a))

/-- A subscription that was dropped does not come back. -/
theorem Agrees.gone_act {b : Bus α} (h : b.Agrees) {id : SubscriptionId} (hlt : id < b.nextId)
    (hid : id ∉ b.roster.map (·.1)) (a : Act α) :
    id < (b.act a).nextId ∧ id ∉ (b.act a).roster.map (·.1) := by
  refine ⟨Nat.lt_of_lt_of_le hlt (h.nextId_act a), ?_⟩
  rw [show (b.act a).roster = _ from congrArg Prod.snd (enroll_act h a)]
  cases a with
  | subscribe scope =>
    simp only [enroll, List.map_append, List.mem_append, not_or]
    exact ⟨hid, by simpa using Nat.ne_of_lt hlt⟩
  | drop i => exact fun hm => hid ((List.filter_sublist.map _).subset hm)
  | _ => exact hid

/-- Nothing is mailed to it any more. -/
theorem Agrees.mail_of_gone {b : Bus α} (h : b.Agrees) {id : SubscriptionId} (hlt : id < b.nextId)
    (hid : id ∉ b.roster.map (·.1)) (acts : List (Act α)) : b.mail id acts = [] := by
  have hinbox : b.inbox id = [] := by rw [inbox, subscription?_eq_none.2 hid]; rfl
  induction acts generalizing b with
  | nil => exact hinbox
  | cons a acts ih =>
    have htaken : b.takenBy id a = [] := by
      cases a with
      | drop i => rw [takenBy, hinbox, ite_self]
      | read i => rw [takenBy, hinbox, List.take_nil, ite_self]
      | _ => rfl
    obtain ⟨hlt', hid'⟩ := h.gone_act hlt hid a
    have hinbox' : (b.act a).inbox id = [] := by rw [inbox, subscription?_eq_none.2 hid']; rfl
    rw [← ih (h.act a) hlt' hid' hinbox', mail, taken, htaken]
    rfl

/-- Dropping a subscription ends its mail. -/
theorem Agrees.mail_drop {b : Bus α} (h : b.Agrees) {id : SubscriptionId} (hlt : id < b.nextId)
    (acts : List (Act α)) : b.mail id (.drop id :: acts) = b.inbox id := by
  have hlt' : id < (b.release id).nextId := Nat.lt_of_lt_of_le hlt (h.nextId_act (.drop id))
  have hrest : (b.release id).mail id acts = [] :=
    (h.act (.drop id)).mail_of_gone hlt' (h.gone_release id) acts
  calc b.mail id (.drop id :: acts) = b.takenBy id (.drop id) ++ (b.release id).mail id acts :=
        List.append_assoc _ _ _
    _ = b.inbox id := by rw [hrest, List.append_nil, takenBy, if_pos rfl]

/-- **The mail of a subscription**: the events that are handed out while it is registered, as far as
it covers them. -/
theorem Agrees.events_mail {b : Bus α} (h : b.Agrees) {id : SubscriptionId} {s : Subscription α}
    (hs : b.subscription? id = some s) (acts : List (Act α)) :
    Delivery.events (b.mail id acts) = Delivery.events s.inbox ++
      (b.handed (acts.takeWhile (!·.drops id))).filter (s.scope.covers ·.channel) := by
  have hkept : ∀ a ∈ acts.takeWhile (!·.drops id), a.drops id = false := fun a ha => by
    simpa using List.all_eq_true.1 List.all_takeWhile a ha
  rw [← h.events_mail_of_kept hs hkept]
  congr 1
  conv_lhs => rw [← List.takeWhile_append_dropWhile (p := (!·.drops id)) (l := acts)]
  rw [mail_append, mail]
  congr 1
  cases hd : acts.dropWhile (!·.drops id) with
  | nil => rfl
  | cons a rest =>
    have ha : a.drops id = true := by
      have := List.head?_dropWhile_not (!·.drops id) acts
      simpa [hd] using this
    obtain rfl := Act.eq_drop ha
    obtain ⟨hmem, rfl⟩ := subscription?_eq_some hs
    exact (h.run _).mail_drop
      (Nat.lt_of_lt_of_le (h.old _ (mem_roster_of_mem hmem)) (h.nextId_run _)) rest

/-! ## A segment of what is published -/

theorem on_filter_covers {scope : Scope} {c : String} (hc : scope.covers c = true)
    (es : List (Event α)) : Event.on c (es.filter (scope.covers ·.channel)) = Event.on c es := by
  rw [Event.on, List.filter_filter]
  refine List.filter_congr fun e _ => ?_
  rw [Bool.and_eq_left_iff_imp, beq_iff_eq]
  rintro rfl
  exact hc

/-- A new subscription starts with an empty mailbox. -/
theorem Agrees.subscription?_subscribe {b : Bus α} (h : b.Agrees) (scope : Scope) :
    (b.subscribe scope).subscription? b.nextId = some { id := b.nextId, scope } := by
  have hnone : b.subscription? b.nextId = none := by
    rw [subscription?_eq_none]
    intro hm
    obtain ⟨x, hx, hxid⟩ := List.mem_map.1 hm
    exact Nat.lt_irrefl _ (hxid ▸ h.old x hx)
  rw [subscription?, Bus.subscribe, List.find?_append, show List.find? _ _ = _ from hnone]
  simp

/-- **Delivery without gaps.** On a channel that it covers, the mail of a subscription is what is
handed out there while it is registered. At every time what was published there is what was handed
out and, behind that, what waits. The mail comes right behind what was handed out before the
subscription was made: it starts with the oldest event that was waiting then, whoever else was
listening, and from there on it has each event once, in the order of publication. -/
theorem gap_free (before rest : List (Act α)) (scope : Scope) (c : String)
    (hc : scope.covers c = true) :
    let b : Bus α := run {} before
    let whole := before ++ .subscribe scope :: rest
    let mail := Event.on c (Delivery.events (b.mail b.nextId (.subscribe scope :: rest)))
    mail = Event.on c (b.handed (.subscribe scope :: rest.takeWhile (!·.drops b.nextId))) ∧
      Event.on c (published before) = Event.on c (handed {} before) ++ Event.on c b.backlog ∧
      Event.on c (published whole) =
        Event.on c (handed {} whole) ++ Event.on c (run {} whole : Bus α).backlog ∧
      Event.on c (handed {} before) ++ mail <+: Event.on c (published whole) := by
  intro b whole mail
  have h : b.Agrees := agrees_run before
  have hmail : mail =
      Event.on c (b.handed (.subscribe scope :: rest.takeWhile (!·.drops b.nextId))) := by
    have := (h.subscribe scope).events_mail (h.subscription?_subscribe scope) rest
    exact (congrArg (Event.on c) this).trans (on_filter_covers hc _)
  refine ⟨hmail, published_eq before c, published_eq whole c, ?_⟩
  have hsplit : whole =
      (before ++ .subscribe scope :: rest.takeWhile (!·.drops b.nextId)) ++
        rest.dropWhile (!·.drops b.nextId) := by
    rw [List.append_assoc, List.cons_append, List.takeWhile_append_dropWhile]
  have hprefix : Event.on c (handed {} whole) <+: Event.on c (published whole) :=
    ⟨_, (published_eq whole c).symm⟩
  rw [hmail, ← Event.on_append, ← handed_append]
  rw [hsplit, handed_append, Event.on_append, ← hsplit] at hprefix
  exact (List.prefix_append _ _).trans hprefix

/-- An event from before the subscription, one from after it, and one from after its end. -/
theorem gap_free_replayed :
    let event (n : Nat) : Event Nat := { channel := "a", payload := n }
    let before : List (Act Nat) := [.publish (event 1)]
    let rest : List (Act Nat) := [.connect true, .dispatch, .publish (event 2), .dispatch, .drop 0,
      .publish (event 3), .dispatch]
    let mail := Delivery.events ((run {} before).mail 0 (.subscribe (.channel "a") :: rest))
    (Scope.channel "a").covers "a" = true ∧
      Event.on "a" (handed {} before) ++ Event.on "a" mail <+:
        Event.on "a" (published (before ++ .subscribe (.channel "a") :: rest)) ∧
      mail.map (·.payload) = [1, 2] :=
  ⟨by decide, (gap_free _ _ (.channel "a") "a" (by decide)).2.2.2, by decide⟩

end Parley.Bus
