import Parley.Proofs.Bus.Mailbox
import Parley.Proofs.Bus.Quiet

/-!
# One party on a bus

`Bus.Conduct held b held' b'`: a party that holds the subscriptions `held` leads the bus from `b` to
`b'` and holds `held'` then. It publishes, subscribes, and reads and drops what it holds; it neither
connects the bus nor hands anything out. So what it subscribes to and does not drop it still holds
(`Conduct.ids`), and it puts nothing into a mailbox (`Conduct.inbox`).

`Bus.Counted` says that the backend counts what is queued. Every act keeps it.
-/

set_option autoImplicit false

namespace Parley.Bus

variable {α : Type}

/-- The identifiers of the subscriptions that exist. -/
def ids (b : Bus α) : List SubscriptionId := b.roster.map (·.1)

theorem ids_eq (b : Bus α) : b.ids = b.subscriptions.map (·.id) := by
  simp [ids, roster]

theorem mem_ids_release {b : Bus α} {id i : SubscriptionId} :
    i ∈ (b.release id).ids ↔ i ∈ b.ids ∧ i ≠ id := by
  simp only [ids_eq, subscriptions_release, List.mem_map, List.mem_filter, bne_iff_ne]
  constructor
  · rintro ⟨s, ⟨hs, hne⟩, rfl⟩
    exact ⟨⟨s, hs, rfl⟩, hne⟩
  · rintro ⟨⟨s, hs, rfl⟩, hne⟩
    exact ⟨s, ⟨hs, hne⟩, rfl⟩

theorem mem_ids_subscribe {b : Bus α} {scope : Scope} {i : SubscriptionId} :
    i ∈ (b.subscribe scope).ids ↔ i ∈ b.ids ∨ i = b.nextId := by
  simp [ids, roster_subscribe]

theorem ids_read (b : Bus α) (id : SubscriptionId) : (b.read id).2.ids = b.ids := by
  rw [ids, roster_read, ids]

/-- What an act adds to the roster is new. -/
theorem Agrees.mem_roster_act {b : Bus α} (h : b.Agrees) {p : SubscriptionId × Scope} {a : Act α}
    (hp : p ∈ (b.act a).roster) : p ∈ b.roster ∨ b.nextId ≤ p.1 := by
  have henroll := congrArg Prod.snd (enroll_act h a)
  rw [show (b.act a).roster = _ from henroll] at hp
  cases a with
  | subscribe scope =>
    rcases List.mem_append.1 hp with hp | hp
    · exact .inl hp
    · rw [List.mem_singleton.1 hp]
      exact .inr (Nat.le_refl _)
  | drop i => exact .inl (List.mem_of_mem_filter hp)
  | _ => exact .inl hp

theorem Agrees.mem_roster_run {b : Bus α} (h : b.Agrees) {p : SubscriptionId × Scope}
    {acts : List (Act α)} (hp : p ∈ (b.run acts).roster) : p ∈ b.roster ∨ b.nextId ≤ p.1 := by
  induction acts generalizing b with
  | nil => exact .inl hp
  | cons a acts ih =>
    rcases ih (h.act a) hp with hp | hle
    · exact h.mem_roster_act hp
    · exact .inr (Nat.le_trans (h.nextId_act a) hle)

theorem Agrees.lt_of_mem_ids {b : Bus α} (h : b.Agrees) {i : SubscriptionId} (hi : i ∈ b.ids) :
    i < b.nextId := by
  obtain ⟨p, hp, rfl⟩ := List.mem_map.1 hi
  exact h.old p hp

/-! ## Acts that put nothing into a mailbox -/

/-- The act puts nothing into a mailbox. -/
def Act.Silent (a : Act α) : Prop := a ≠ .dispatch ∧ a ≠ .closeAll

theorem inbox_of_subscription? {b : Bus α} {id : SubscriptionId} {s : Subscription α}
    (h : b.subscription? id = some s) : b.inbox id = s.inbox := by
  rw [inbox, h]
  rfl

theorem inbox_congr {b b' : Bus α} {id : SubscriptionId}
    (h : b'.subscription? id = b.subscription? id) : b'.inbox id = b.inbox id := by
  rw [inbox, h, inbox]

theorem inbox_subscribe (b : Bus α) (scope : Scope) (id : SubscriptionId) :
    (b.subscribe scope).inbox id = b.inbox id := by
  simp only [inbox, subscription?, subscribe, List.find?_append]
  cases b.subscriptions.find? (·.id == id) with
  | some s => rfl
  | none =>
    by_cases h : b.nextId = id <;> simp [h]

/-- What a silent act leaves in a mailbox is what lay there, less what it takes out. -/
theorem takenBy_append_inbox (b : Bus α) (id : SubscriptionId) {a : Act α} (ha : a.Silent) :
    b.takenBy id a ++ (b.act a).inbox id = b.inbox id := by
  cases a with
  | publish e => rfl
  | subscribe scope => exact inbox_subscribe b scope id
  | drop i =>
    by_cases hi : i = id
    · subst hi
      have hnone : (b.release i).subscription? i = none := by
        rw [subscription?_eq_none]
        intro hm
        exact (mem_ids_release.1 hm).2 rfl
      simp [takenBy, act, inbox, hnone]
    · simp only [takenBy, if_neg hi, List.nil_append]
      exact inbox_congr (subscription?_filter b _ hi (subscriptions_release b i))
  | read i =>
    cases hs : b.subscription? id with
    | some s =>
      obtain ⟨s', hs', -, htaken⟩ := subscription?_read hs i
      rw [inbox_of_subscription? hs, act, inbox_of_subscription? hs', htaken]
    | none =>
      have hnone : (b.read i).2.subscription? id = none := by
        rw [subscription?_eq_none, roster_read]
        exact subscription?_eq_none.1 hs
      simp [takenBy, act, inbox, hs, hnone]
  | connect runtime => rcases act_connect b runtime with hb | hb <;> rw [hb] <;> rfl
  | detach => rfl
  | closeAll => exact absurd rfl ha.2
  | dispatch => exact absurd rfl ha.1

/-- Silent acts mail nothing. -/
theorem mail_of_silent {b : Bus α} (id : SubscriptionId) {acts : List (Act α)}
    (h : ∀ a ∈ acts, a.Silent) : b.mail id acts = b.inbox id := by
  induction acts generalizing b with
  | nil => rfl
  | cons a acts ih =>
    have hrest := ih (b := b.act a) fun x hx => h x (List.mem_cons_of_mem _ hx)
    have hmail : b.mail id (a :: acts) = b.takenBy id a ++ (b.act a).mail id acts :=
      List.append_assoc _ _ _
    rw [hmail, hrest]
    exact takenBy_append_inbox b id (h a List.mem_cons_self)

theorem length_inbox_le {b : Bus α} (id : SubscriptionId) {acts : List (Act α)}
    (h : ∀ a ∈ acts, a.Silent) : ((b.run acts).inbox id).length ≤ (b.inbox id).length := by
  have hmail := congrArg List.length (mail_of_silent (b := b) id h)
  rw [mail, List.length_append] at hmail
  omega

/-! ## What arrives -/

/-- What has been put into a mailbox between two states of a bus. -/
def arrivals (b b' : Bus α) (id : SubscriptionId) : List (Delivery α) :=
  (b'.inbox id).drop (b.inbox id).length

theorem arrivals_of_le {b b' : Bus α} {id : SubscriptionId}
    (h : (b'.inbox id).length ≤ (b.inbox id).length) : b.arrivals b' id = [] :=
  List.drop_eq_nil_of_le h

/-- What a step of the dispatcher puts into a mailbox is the oldest event, if that is covered. -/
theorem Agrees.arrivals_dispatch {b : Bus α} (h : b.Agrees) {id : SubscriptionId}
    {s : Subscription α} (hs : b.subscription? id = some s) {e : Event α} {rest : List (Event α)}
    (hc : b.connected = true) (hq : b.backend.queue = e :: rest) :
    b.arrivals b.dispatch id = if s.scope.covers e.channel then [.event e] else [] := by
  have hdispatched := h.subscription?_dispatch hs hc hq
  rw [arrivals, inbox_of_subscription? hdispatched, inbox_of_subscription? hs]
  exact List.drop_left

/-- No mark of the end is handed out. -/
theorem Agrees.not_closed_dispatch {b : Bus α} (h : b.Agrees) (id : SubscriptionId) :
    .closed ∉ b.arrivals b.dispatch id := by
  rcases dispatch_cases b with hrest | ⟨e, rest, hc, hq⟩
  · rw [dispatch_of_rest hrest, arrivals, List.drop_length]
    exact List.not_mem_nil
  · cases hs : b.subscription? id with
    | none =>
      have hnone : b.dispatch.subscription? id = none := by
        rw [subscription?_eq_none, roster_dispatch]
        exact subscription?_eq_none.1 hs
      simp [arrivals, inbox, hnone]
    | some s =>
      rw [h.arrivals_dispatch hs hc hq]
      split <;> simp

/-! ## What stays -/

/-- A bus stays connected until it is detached. -/
theorem connected_run {b : Bus α} (h : b.connected = true) {acts : List (Act α)}
    (hacts : .detach ∉ acts) : (b.run acts).connected = true := by
  induction acts generalizing b with
  | nil => exact h
  | cons a acts ih =>
    rw [List.mem_cons, not_or] at hacts
    refine ih ?_ hacts.2
    by_cases hc : ∃ runtime, a = .connect runtime
    · obtain ⟨runtime, rfl⟩ := hc
      rcases act_connect b runtime with hb | hb <;> rw [hb]
      exact h
    · rw [connected_act b (fun runtime ha => hc ⟨runtime, ha⟩) (Ne.symm hacts.1)]
      exact h

/-- A bus that is not connected stays so until it is. -/
theorem not_connected_run {b : Bus α} (h : b.connected = false) {acts : List (Act α)}
    (hacts : ∀ runtime, .connect runtime ∉ acts) : (b.run acts).connected = false := by
  induction acts generalizing b with
  | nil => exact h
  | cons a acts ih =>
    refine ih ?_ fun runtime hm => hacts runtime (List.mem_cons_of_mem _ hm)
    by_cases hd : a = .detach
    · rw [hd]
      rfl
    · have hc : ∀ runtime, a ≠ .connect runtime := fun runtime ha =>
        hacts runtime (ha ▸ List.mem_cons_self)
      rw [connected_act b hc hd]
      exact h

/-- What is queued stays queued until it is handed out. -/
theorem mem_queue_act {b : Bus α} {e : Event α} (he : e ∈ b.backend.queue) {a : Act α}
    (ha : a ≠ .dispatch) : e ∈ (b.act a).backend.queue := by
  rcases lists_cases b a with ⟨x, rfl⟩ | ⟨scope, rfl, hopen⟩ | ⟨-, rfl, -⟩ | ⟨-, -, hqueue, -⟩
  · simp only [act, publish, Backend.publish]
    split
    · exact List.mem_append_left _ he
    · exact he
  · rw [hopen]
    cases scope <;> exact List.mem_append_left _ he
  · exact absurd rfl ha
  · exact hqueue ▸ he

theorem mem_queue_run {b : Bus α} {e : Event α} (he : e ∈ b.backend.queue) {acts : List (Act α)}
    (hacts : .dispatch ∉ acts) : e ∈ (b.run acts).backend.queue := by
  induction acts generalizing b with
  | nil => exact he
  | cons a acts ih =>
    rw [List.mem_cons, not_or] at hacts
    exact ih (mem_queue_act he (Ne.symm hacts.1)) hacts.2

/-! ## What is queued is counted -/

/-- The backend counts what is queued. -/
def Counted (b : Bus α) : Prop := b.backend.pending = b.backend.queue.length

theorem counted_open? {backend : Backend α} (h : backend.pending = backend.queue.length)
    (scope : Scope) : (open? backend scope).pending = (open? backend scope).queue.length := by
  cases scope <;>
    simp [open?, Backend.subscribe, Backend.universalSubscribe, Backend.enqueue, h]

theorem pending_shut {backend backend' : Backend α} {scope : Scope}
    (h : shut backend scope = .ok backend') : backend'.pending = backend.pending := by
  cases scope <;> simp only [shut, Backend.unsubscribe, Backend.universalUnsubscribe] at h <;>
    split at h <;> cases h <;> rfl

theorem counted_release {b : Bus α} (h : b.Counted) (id : SubscriptionId) :
    (b.release id).Counted := by
  simp only [release, releaseReport]
  split
  · exact h
  · split
    · split
      · next hshut =>
        have hqueue := (shut_lists hshut).1
        have hpending := pending_shut hshut
        simp only [Counted, hqueue, hpending]
        exact h
      · exact h
    · exact h

theorem Counted.act {b : Bus α} (h : b.Counted) (a : Act α) : (b.act a).Counted := by
  unfold Counted at h ⊢
  cases a with
  | publish e =>
    simp only [Bus.act, publish, Backend.publish]
    split
    · simp [Backend.enqueue, h]
    · exact h
  | subscribe scope =>
    simp only [Bus.act, subscribe]
    split
    · exact h
    · exact counted_open? h scope
  | drop id => exact counted_release h id
  | read id =>
    rw [Bus.act, backend_read]
    exact h
  | connect runtime => rcases act_connect b runtime with hb | hb <;> rw [hb] <;> exact h
  | detach => exact h
  | closeAll =>
    rw [Bus.act, backend_closeAll]
    exact h
  | dispatch =>
    rcases dispatch_cases b with hrest | ⟨e, rest, hc, hq⟩
    · rw [Bus.act, dispatch_of_rest hrest]
      exact h
    · rw [hq, List.length_cons] at h
      rw [Bus.act, dispatch_cons hc hq]
      simp only
      omega

theorem Counted.run {b : Bus α} (h : b.Counted) (acts : List (Act α)) : (b.run acts).Counted := by
  induction acts generalizing b with
  | nil => exact h
  | cons a acts ih => exact ih (h.act a)

theorem counted_run (acts : List (Act α)) : (run {} acts : Bus α).Counted :=
  Counted.run (b := {}) rfl acts

/-- When nothing is pending, nothing is queued. -/
theorem Counted.queue_eq_nil {b : Bus α} (h : b.Counted) (hidle : b.isIdle = true) :
    b.backend.queue = [] := by
  have hpending : b.backend.pending = 0 := by simpa [isIdle, Backend.isIdle] using hidle
  rw [Counted, hpending] at h
  exact List.eq_nil_of_length_eq_zero h.symm

/-! ## What a party does -/

/-- What a party does on a bus with the subscriptions that it holds (module doc). -/
inductive Conduct : List SubscriptionId → Bus α → List SubscriptionId → Bus α → Prop
  | rest {held : List SubscriptionId} {b : Bus α} : Conduct held b held b
  | publish {held held' : List SubscriptionId} {b b' : Bus α} (h : Conduct held b held' b')
    (e : Event α) : Conduct held b held' (b'.publish e)
  | subscribe {held held' held'' : List SubscriptionId} {b b' : Bus α}
    (h : Conduct held b held' b') (scope : Scope)
    (hids : ∀ i, i ∈ held'' ↔ i ∈ held' ∨ i = b'.nextId) :
    Conduct held b held'' (b'.subscribe scope)
  | read {held held' : List SubscriptionId} {b b' : Bus α} (h : Conduct held b held' b')
    {id : SubscriptionId} (hid : id ∈ held') : Conduct held b held' (b'.read id).2
  | drop {held held' held'' : List SubscriptionId} {b b' : Bus α} (h : Conduct held b held' b')
    {id : SubscriptionId} (hid : id ∈ held') (hsub : ∀ i ∈ held'', i ∈ held')
    (hall : ∀ i ∈ held', i = id ∨ i ∈ held'') : Conduct held b held'' (b'.release id)

/-- An act that a party may take in its turn. -/
def Act.Private : Act α → Prop
  | .connect _ | .detach | .closeAll | .dispatch => False
  | _ => True

theorem Act.Private.silent {a : Act α} (h : a.Private) : a.Silent := by
  constructor <;> rintro rfl <;> exact h

/-- One act more, of the same kind. -/
theorem exists_run_concat {P : Act α → Prop} {b b' : Bus α} {a : Act α} (ha : P a)
    (h : ∃ acts, b' = b.run acts ∧ ∀ x ∈ acts, P x) :
    ∃ acts, b'.act a = b.run acts ∧ ∀ x ∈ acts, P x := by
  obtain ⟨acts, rfl, hacts⟩ := h
  refine ⟨acts ++ [a], by rw [run_append]; rfl, fun x hx => ?_⟩
  rcases List.mem_append.1 hx with hx | hx
  · exact hacts x hx
  · exact List.mem_singleton.1 hx ▸ ha

namespace Conduct

variable {held held' held'' : List SubscriptionId} {b b' b'' : Bus α}

theorem trans (h : Conduct held b held' b') (h' : Conduct held' b' held'' b'') :
    Conduct held b held'' b'' := by
  induction h' with
  | rest => exact h
  | publish _ e ih => exact (ih h).publish e
  | subscribe _ scope hids ih => exact (ih h).subscribe scope hids
  | read _ hid ih => exact (ih h).read hid
  | drop _ hid hsub hall ih => exact (ih h).drop hid hsub hall

theorem acts (h : Conduct held b held' b') : ∃ acts, b' = b.run acts ∧ ∀ a ∈ acts, a.Private := by
  induction h with
  | rest => exact ⟨[], rfl, nofun⟩
  | publish _ e ih => exact exists_run_concat (a := .publish e) trivial ih
  | subscribe _ scope _ ih => exact exists_run_concat (a := .subscribe scope) trivial ih
  | @read _ _ _ _ id _ ih => exact exists_run_concat (a := .read id) trivial ih
  | @drop _ _ _ _ _ id _ _ _ ih => exact exists_run_concat (a := .drop id) trivial ih

theorem agrees (h : Conduct held b held' b') (hb : b.Agrees) : b'.Agrees := by
  obtain ⟨acts, rfl, -⟩ := h.acts
  exact hb.run acts

theorem counted (h : Conduct held b held' b') (hb : b.Counted) : b'.Counted := by
  obtain ⟨acts, rfl, -⟩ := h.acts
  exact hb.run acts

theorem nextId (h : Conduct held b held' b') (hb : b.Agrees) : b.nextId ≤ b'.nextId := by
  obtain ⟨acts, rfl, -⟩ := h.acts
  exact hb.nextId_run acts

theorem connected (h : Conduct held b held' b') : b'.connected = b.connected := by
  obtain ⟨acts, rfl, hacts⟩ := h.acts
  clear h
  induction acts generalizing b with
  | nil => rfl
  | cons a acts ih =>
    rw [run_cons, ih fun x hx => hacts x (List.mem_cons_of_mem _ hx)]
    have ha := hacts a List.mem_cons_self
    exact connected_act b (fun _ hc => by rw [hc] at ha; exact ha)
      (fun hd => by rw [hd] at ha; exact ha)

/-- Nothing is put into a mailbox. -/
theorem inbox (h : Conduct held b held' b') (id : SubscriptionId) :
    (b'.inbox id).length ≤ (b.inbox id).length := by
  obtain ⟨acts, rfl, hacts⟩ := h.acts
  exact length_inbox_le id fun a ha => (hacts a ha).silent

/-- **What the party leaves behind**: a subscription that exists afterwards is held by it, or it
existed before and was not the party's. -/
theorem ids (h : Conduct held b held' b') {i : SubscriptionId} (hi : i ∈ b'.ids) :
    i ∈ held' ∨ i ∈ b.ids ∧ i ∉ held := by
  induction h with
  | rest =>
    by_cases hheld : i ∈ held
    · exact .inl hheld
    · exact .inr ⟨hi, hheld⟩
  | publish _ e ih => exact ih hi
  | subscribe _ scope hids ih =>
    rcases mem_ids_subscribe.1 hi with hi | rfl
    · exact (ih hi).imp_left fun hheld => (hids i).2 (.inl hheld)
    · exact .inl ((hids _).2 (.inr rfl))
  | read _ hid ih =>
    rw [ids_read] at hi
    exact ih hi
  | drop _ hid hsub hall ih =>
    obtain ⟨hi, hne⟩ := mem_ids_release.1 hi
    exact (ih hi).imp_left fun hheld => (hall i hheld).resolve_left hne

end Conduct

end Parley.Bus
