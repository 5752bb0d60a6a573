import Mathlib.Data.List.Nodup
import Parley.Proofs.Bus.Register
import Parley.Proofs.Bus.Run

/-!
# Register, backend and subscriptions agree

`Bus.Agrees b`: the register lists under each scope the subscriptions that exist with that scope,
the backend has exactly the listed scopes open, and it holds no event back that somebody would hear.
Every act keeps this (`Agrees.act`), so it holds after every run (`agrees_run`). The subscriptions
that exist are those of `Bus.enrolled`, which reads them off the acts alone. `register_in_step` puts
it together; in particular no release ever finds register and backend at odds.
-/

set_option autoImplicit false

namespace Parley.Bus

variable {α : Type}

/-- The subscriptions that have not been dropped, each with its scope. -/
def roster (b : Bus α) : List (SubscriptionId × Scope) :=
  b.subscriptions.map fun s => (s.id, s.scope)

/-- The subscriptions under one scope. -/
def under (b : Bus α) (scope : Scope) : List SubscriptionId :=
  (b.roster.filter (·.2 == scope)).map (·.1)

/-- The agreement of the three (module doc). -/
structure Agrees (b : Bus α) : Prop where
  ids : (b.roster.map (·.1)).Nodup
  old : ∀ x ∈ b.roster, x.1 < b.nextId
  table : b.table.Sound
  listed : ∀ scope, b.table.listed scope = b.under scope
  opened : ∀ scope, b.backend.isOpen scope = b.table.isListed scope
  held : ∀ e ∈ b.backend.missed, b.backend.hears e.channel = false

theorem mem_under {b : Bus α} {scope : Scope} {id : SubscriptionId} :
    id ∈ b.under scope ↔ (id, scope) ∈ b.roster := by
  simp [under]

theorem mem_roster_of_mem {b : Bus α} {s : Subscription α} (h : s ∈ b.subscriptions) :
    (s.id, s.scope) ∈ b.roster := List.mem_map_of_mem h

/-- An identifier belongs to one subscription. -/
theorem Agrees.scope_unique {b : Bus α} (h : b.Agrees) {id : SubscriptionId} {x y : Scope}
    (hx : (id, x) ∈ b.roster) (hy : (id, y) ∈ b.roster) : x = y :=
  congrArg Prod.snd (List.inj_on_of_nodup_map h.ids hx hy rfl)

theorem Agrees.nodup_listed {b : Bus α} (h : b.Agrees) (scope : Scope) :
    (b.table.listed scope).Nodup := by
  rw [h.listed]
  exact h.ids.sublist (List.filter_sublist.map _)

theorem agrees_empty : (({} : Bus α)).Agrees where
  ids := List.nodup_nil
  old := nofun
  table := Table.sound_empty
  listed scope := by cases scope <;> rfl
  opened scope := by cases scope <;> rfl
  held := nofun

/-! ## Acts that leave the roster alone -/

/-- Mailboxes and queue are no part of the agreement. -/
theorem Agrees.congr {b b' : Bus α} (h : b.Agrees) (hr : b'.roster = b.roster)
    (ht : b'.table = b.table) (hm : b'.backend.missed = b.backend.missed)
    (ho : ∀ scope, b'.backend.isOpen scope = b.backend.isOpen scope) : b'.Agrees where
  ids := hr ▸ h.ids
  old := by rw [hr, nextId, ht]; exact h.old
  table := ht ▸ h.table
  listed scope := by rw [ht, h.listed, under, under, hr]
  opened scope := by rw [ho, ht, h.opened]
  held e he := by
    rw [hm] at he
    have := h.held e he
    rw [Backend.hears] at this ⊢
    exact (congrArg₂ or (ho .universal) (ho (.channel e.channel))).trans this

theorem roster_modify (b : Bus α) (id : SubscriptionId) {f : Subscription α → Subscription α}
    (hf : ∀ s, ((f s).id, (f s).scope) = (s.id, s.scope)) : (b.modify id f).roster = b.roster := by
  simp only [roster, modify, List.map_map]
  refine List.map_congr_left fun s _ => ?_
  simp only [Function.comp]
  split
  · exact hf s
  · rfl

theorem scope_read (s : Subscription α) : s.read.2.scope = s.scope := by
  unfold Subscription.read
  split
  · rfl
  · split <;> rfl

theorem roster_read (b : Bus α) (id : SubscriptionId) : (b.read id).2.roster = b.roster := by
  unfold read
  split
  · rfl
  · exact roster_modify b id fun s => by rw [Subscription.id_read, scope_read]

theorem table_read (b : Bus α) (id : SubscriptionId) : (b.read id).2.table = b.table := by
  unfold read
  split <;> rfl

theorem backend_read (b : Bus α) (id : SubscriptionId) : (b.read id).2.backend = b.backend := by
  unfold read
  split <;> rfl

theorem act_connect (b : Bus α) (runtime : Bool) :
    b.act (.connect runtime) = b ∨ b.act (.connect runtime) = { b with connected := true } := by
  simp only [act, connect]
  split
  · next h =>
    split at h
    · cases h
    · split at h
      · cases h
      · cases h
        exact .inr rfl
  · exact .inl rfl

/-- Deliveries to several mailboxes: each subscription receives one for every mention of it. -/
theorem foldl_deliver (d : Delivery α) (ids : List SubscriptionId) (b : Bus α) :
    ids.foldl (deliver d) b = { b with subscriptions := b.subscriptions.map fun s =>
      { s with inbox := s.inbox ++ List.replicate (ids.count s.id) d } } := by
  induction ids generalizing b with
  | nil => simp
  | cons id ids ih =>
    rw [List.foldl_cons, ih]
    simp only [deliver, modify, List.map_map]
    congr 1
    refine List.map_congr_left fun s _ => ?_
    by_cases hs : s.id = id
    · simp [hs, Subscription.receive, List.replicate_succ]
    · simp [hs, show id ≠ s.id from Ne.symm hs]

/-- What a step of the dispatcher does when there is something to hand out. -/
theorem dispatch_cons {b : Bus α} {e : Event α} {rest : List (Event α)} (hc : b.connected = true)
    (hq : b.backend.queue = e :: rest) :
    b.dispatch = { b with
      backend := { b.backend with queue := rest, pending := b.backend.pending - 1 }
      subscriptions := b.subscriptions.map fun s =>
        { s with inbox := s.inbox ++
            List.replicate ((b.recipients e.channel).count s.id) (.event e) } } := by
  simp only [dispatch, hc, if_true, Backend.next?, hq, fanOut, foldl_deliver]
  rfl

/-- Otherwise it does nothing. -/
theorem dispatch_of_rest {b : Bus α} (h : b.connected = false ∨ b.backend.queue = []) :
    b.dispatch = b := by
  rcases h with h | h
  · simp [dispatch, h]
  · simp [dispatch, Backend.next?, h]

theorem handsOut_cons {b : Bus α} {e : Event α} {rest : List (Event α)} (hc : b.connected = true)
    (hq : b.backend.queue = e :: rest) : b.handsOut .dispatch = [e] := by
  simp [handsOut, hc, hq]

theorem handsOut_of_rest {b : Bus α} (h : b.connected = false ∨ b.backend.queue = []) :
    b.handsOut .dispatch = [] := by
  rcases h with h | h <;> simp [handsOut, h]

/-- The two cases of a step of the dispatcher. -/
theorem dispatch_cases (b : Bus α) :
    (b.connected = false ∨ b.backend.queue = []) ∨
      ∃ e rest, b.connected = true ∧ b.backend.queue = e :: rest := by
  cases hc : b.connected
  · exact .inl (.inl rfl)
  · cases hq : b.backend.queue with
    | nil => exact .inl (.inr rfl)
    | cons e rest => exact .inr ⟨e, rest, rfl, rfl⟩

/-! ## One act -/

theorem Agrees.publish {b : Bus α} (h : b.Agrees) (e : Event α) : (b.publish e).Agrees where
  ids := h.ids
  old := h.old
  table := h.table
  listed := h.listed
  opened scope := (Backend.isOpen_publish b.backend e scope).trans (h.opened scope)
  held x hx := by
    have hears : ∀ c, (b.backend.publish e).hears c = b.backend.hears c := fun c =>
      congrArg₂ or (Backend.isOpen_publish b.backend e .universal)
        (Backend.isOpen_publish b.backend e (.channel c))
    change (b.backend.publish e).hears x.channel = false
    rw [hears]
    cases hh : b.backend.hears e.channel
    · replace hx : x ∈ (b.backend.publish e).missed := hx
      rw [Backend.publish_of_unheard hh] at hx
      rcases List.mem_append.1 hx with hx | hx
      · exact h.held x hx
      · rw [List.mem_singleton.1 hx, hh]
    · replace hx : x ∈ (b.backend.publish e).missed := hx
      rw [Backend.publish_of_heard hh] at hx
      exact h.held x hx

/-- What is held back once a scope has been opened is not covered by it. -/
theorem mem_missed_open? {backend : Backend α} {scope : Scope} {e : Event α}
    (h : e ∈ (open? backend scope).missed) :
    e ∈ backend.missed ∧ scope.covers e.channel = false := by
  cases scope with
  | universal => cases h
  | channel c =>
    obtain ⟨hm, hc⟩ := List.mem_filter.1 h
    exact ⟨hm, by simpa [Scope.covers, bne_iff_ne, ne_comm] using hc⟩

theorem roster_subscribe (b : Bus α) (scope : Scope) :
    (b.subscribe scope).roster = b.roster ++ [(b.nextId, scope)] := by
  simp [roster, subscribe]

theorem under_append (b b' : Bus α) (id : SubscriptionId) (scope other : Scope)
    (h : b'.roster = b.roster ++ [(id, scope)]) :
    b'.under other = if other = scope then b.under other ++ [id] else b.under other := by
  rw [under, h, List.filter_append, List.map_append]
  by_cases ho : other = scope
  · simp [ho, under]
  · simp [ho, Ne.symm ho, under]

theorem Agrees.subscribe {b : Bus α} (h : b.Agrees) (scope : Scope) :
    (b.subscribe scope).Agrees where
  ids := by
    rw [roster_subscribe, List.map_append, List.nodup_append]
    refine ⟨h.ids, by simp, fun x hx y hy => ?_⟩
    obtain ⟨p, hp, rfl⟩ := List.mem_map.1 hx
    rw [show y = b.nextId by simpa using hy]
    exact Nat.ne_of_lt (h.old p hp)
  old x hx := by
    rw [roster_subscribe] at hx
    rw [nextId, show (b.subscribe scope).table = b.table.register scope from rfl,
      Table.nextId_register]
    rcases List.mem_append.1 hx with hx | hx
    · exact Nat.lt_succ_of_lt (h.old x hx)
    · rw [List.mem_singleton.1 hx]
      exact Nat.lt_succ_self _
  table := Table.sound_register h.table scope
  listed other := by
    rw [under_append b _ _ _ _ (roster_subscribe b scope), ← h.listed]
    exact Table.listed_register b.table scope other
  opened other := by
    have hreg : (b.table.register scope).isListed other =
        (other == scope || b.table.isListed other) := by
      rw [Bool.eq_iff_iff, Table.isListed_iff (Table.sound_register h.table scope),
        Table.listed_register, Bool.or_eq_true, Table.isListed_iff h.table]
      by_cases ho : other = scope <;> simp [ho]
    change (if b.table.isListed scope then b.backend else open? b.backend scope).isOpen other = _
    rw [show (b.subscribe scope).table = b.table.register scope from rfl, hreg]
    split
    · next hl =>
      rw [h.opened]
      by_cases ho : other = scope
      · simp [ho, hl]
      · simp [ho]
    · rw [isOpen_open?, h.opened]
  held e he := by
    change (if b.table.isListed scope then b.backend else open? b.backend scope).hears e.channel = _
    replace he :
        e ∈ (if b.table.isListed scope then b.backend else open? b.backend scope).missed := he
    by_cases hl : b.table.isListed scope = true
    · rw [if_pos hl] at he ⊢
      exact h.held e he
    · rw [if_neg hl] at he ⊢
      obtain ⟨hm, hc⟩ := mem_missed_open? he
      rw [← Bool.not_eq_true, Backend.hears_iff]
      rintro ⟨other, hco, ho⟩
      rw [isOpen_open?, Bool.or_eq_true, beq_iff_eq] at ho
      rcases ho with rfl | ho
      · rw [hc] at hco
        cases hco
      · have := h.held e hm
        rw [← Bool.not_eq_true, Backend.hears_iff] at this
        exact this ⟨other, hco, ho⟩

/-! ## Dropping a subscription -/

theorem subscription?_eq_some {b : Bus α} {id : SubscriptionId} {s : Subscription α}
    (h : b.subscription? id = some s) : s ∈ b.subscriptions ∧ s.id = id :=
  ⟨List.mem_of_find?_eq_some h, by simpa using List.find?_some h⟩

theorem subscription?_eq_none {b : Bus α} {id : SubscriptionId} :
    b.subscription? id = none ↔ id ∉ b.roster.map (·.1) := by
  simp [subscription?, roster]

/-- The first part of what becomes of a bus when the subscription `id` under `scope` is dropped: the
subscription and its place in the register go. -/
structure Struck (b b' : Bus α) (id : SubscriptionId) (scope : Scope) : Prop where
  roster : b'.roster = b.roster.filter (·.1 != id)
  table : b'.table = b.table.strike id scope

theorem under_struck {b b' : Bus α} (h : b.Agrees) {id : SubscriptionId} {scope : Scope}
    (hid : (id, scope) ∈ b.roster) (hs : Struck b b' id scope) (other : Scope) :
    b'.under other =
      if other = scope then (b.under other).filter (· != id) else b.under other := by
  have hf : b'.under other = (b.under other).filter (· != id) := by
    simp only [under, hs.roster, List.filter_map, List.filter_filter, Function.comp_def]
    simp only [Bool.and_comm]
  rw [hf]
  split
  · rfl
  · next ho =>
    rw [List.filter_eq_self]
    intro x hx
    rw [bne_iff_ne]
    rintro rfl
    exact ho (h.scope_unique (mem_under.1 hx) hid)

theorem isListed_struck {b b' : Bus α} (h : b.Agrees) {id : SubscriptionId} {scope other : Scope}
    (hs : Struck b b' id scope) (ho : other ≠ scope) :
    b'.table.isListed other = b.table.isListed other := by
  rw [Bool.eq_iff_iff, hs.table, Table.isListed_iff (Table.sound_strike h.table id scope),
    Table.isListed_iff h.table, Table.listed_strike h.table, if_neg ho]

/-- The agreement goes on if, besides, the backend has open what is still listed. -/
theorem Agrees.struck {b b' : Bus α} (h : b.Agrees) {id : SubscriptionId} {scope : Scope}
    (hid : (id, scope) ∈ b.roster) (hs : Struck b b' id scope)
    (ho : ∀ other, b'.backend.isOpen other = b'.table.isListed other)
    (hm : b'.backend.missed = b.backend.missed)
    (hle : ∀ other, b'.backend.isOpen other = true → b.backend.isOpen other = true) :
    b'.Agrees where
  ids := by
    rw [hs.roster]
    exact h.ids.sublist (List.filter_sublist.map _)
  old x hx := by
    rw [nextId, hs.table, Table.nextId_strike]
    exact h.old x (List.mem_of_mem_filter (hs.roster ▸ hx))
  table := hs.table ▸ Table.sound_strike h.table id scope
  listed other := by
    rw [hs.table, Table.listed_strike h.table, under_struck h hid hs, h.listed]
  opened := ho
  held e he := by
    have := h.held e (hm ▸ he)
    rw [← Bool.not_eq_true, Backend.hears_iff] at this ⊢
    rintro ⟨other, hc, hopen⟩
    exact this ⟨other, hc, hle other hopen⟩

/-- **Dropping a subscription**: register and backend are never found at odds, the agreement goes
on, and the subscription is gone. -/
theorem Agrees.releaseReport {b : Bus α} (h : b.Agrees) (id : SubscriptionId) :
    (b.releaseReport id).2 = none ∧ (b.release id).Agrees ∧
      (b.release id).roster = b.roster.filter (·.1 != id) := by
  rw [release]
  cases hf : b.subscription? id with
  | none =>
    have hn := subscription?_eq_none.1 hf
    simp only [Bus.releaseReport, hf]
    refine ⟨trivial, h, (List.filter_eq_self.2 fun x hx => ?_).symm⟩
    rw [bne_iff_ne]
    rintro rfl
    exact hn (List.mem_map_of_mem hx)
  | some s =>
    obtain ⟨hmem, rfl⟩ := subscription?_eq_some hf
    have hid := mem_roster_of_mem hmem
    have hrest : ∀ backend : Backend α, Struck b { b with
        backend, table := b.table.strike s.id s.scope
        subscriptions := b.subscriptions.filter (·.id != s.id) } s.id s.scope := fun backend =>
      ⟨by simp only [roster, List.filter_map]; rfl, rfl⟩
    have hlisted : b.table.isListed s.scope = true := by
      rw [Table.isListed_iff h.table, h.listed]
      exact List.ne_nil_of_mem (mem_under.2 hid)
    have hother : ∀ other, other ≠ s.scope →
        (b.table.strike s.id s.scope).isListed other = b.table.isListed other :=
      fun other ho => isListed_struck h (hrest b.backend) ho
    simp only [Bus.releaseReport, hf, hlisted, Bool.true_and]
    cases hlast : (b.table.strike s.id s.scope).isListed s.scope
    -- it was the last one under its scope
    · obtain ⟨backend, hshut, hopen, hmissed, -⟩ :=
        shut_of_isOpen ((h.opened s.scope).trans hlisted)
      simp only [hshut, Bool.not_false, if_true]
      refine ⟨trivial, h.struck hid (hrest backend) (fun other => ?_) hmissed (fun other ho => ?_),
        (hrest backend).roster⟩
      · refine (hopen other).trans ?_
        by_cases ho : other = s.scope
        · simp [ho, hlast]
        · simp [ho, hother other ho, h.opened]
      · rw [hopen, Bool.and_eq_true] at ho
        exact ho.2
    · simp only [Bool.not_true, if_false, Bool.false_eq_true]
      refine ⟨trivial, h.struck hid (hrest b.backend) (fun other => ?_) rfl (fun _ ho => ho),
        (hrest b.backend).roster⟩
      by_cases ho : other = s.scope
      · exact (h.opened other).trans (by rw [ho, hlisted]; exact hlast.symm)
      · exact (h.opened other).trans (hother other ho).symm

theorem Agrees.roster_release {b : Bus α} (h : b.Agrees) (id : SubscriptionId) :
    (b.release id).roster = b.roster.filter (·.1 != id) := (h.releaseReport id).2.2

theorem Agrees.gone_release {b : Bus α} (h : b.Agrees) (id : SubscriptionId) :
    id ∉ (b.release id).roster.map (·.1) := by
  rw [h.roster_release]
  simp

/-! ## Runs -/

/-- The subscriptions made and not dropped, and the next identifier, as an act changes them. -/
def enroll : SubscriptionId × List (SubscriptionId × Scope) → Act α →
    SubscriptionId × List (SubscriptionId × Scope)
  | (next, l), .subscribe scope => (next + 1, l ++ [(next, scope)])
  | (next, l), .drop id => (next, l.filter (·.1 != id))
  | x, _ => x

/-- The subscriptions that a run makes and does not drop, each with its scope. -/
def enrolled (acts : List (Act α)) : List (SubscriptionId × Scope) := (acts.foldl enroll (0, [])).2

theorem roster_closeAll (b : Bus α) : b.closeAll.roster = b.roster := by
  rw [closeAll, foldl_deliver]
  simp [roster, Function.comp_def]

theorem table_closeAll (b : Bus α) : b.closeAll.table = b.table := foldl_deliver_table _ _ _

theorem backend_closeAll (b : Bus α) : b.closeAll.backend = b.backend := foldl_deliver_backend _ _ _

theorem roster_dispatch (b : Bus α) : b.dispatch.roster = b.roster := by
  rcases dispatch_cases b with h | ⟨e, rest, hc, hq⟩
  · rw [dispatch_of_rest h]
  · rw [dispatch_cons hc hq]
    simp [roster, Function.comp_def]

theorem table_dispatch (b : Bus α) : b.dispatch.table = b.table := by
  rcases dispatch_cases b with h | ⟨e, rest, hc, hq⟩
  · rw [dispatch_of_rest h]
  · rw [dispatch_cons hc hq]

theorem Agrees.dispatch {b : Bus α} (h : b.Agrees) : b.dispatch.Agrees := by
  rcases dispatch_cases b with hr | ⟨e, rest, hc, hq⟩
  · rw [dispatch_of_rest hr]
    exact h
  · refine h.congr (roster_dispatch b) (table_dispatch b) ?_ fun scope => ?_ <;>
      rw [dispatch_cons hc hq]
    cases scope <;> rfl

/-- Every act keeps the agreement. -/
theorem Agrees.act {b : Bus α} (h : b.Agrees) (a : Act α) : (b.act a).Agrees := by
  cases a with
  | publish e => exact h.publish e
  | subscribe scope => exact h.subscribe scope
  | drop id => exact (h.releaseReport id).2.1
  | read id =>
    exact h.congr (roster_read b id) (table_read b id)
      (congrArg Backend.missed (backend_read b id)) fun scope =>
      congrArg (·.isOpen scope) (backend_read b id)
  | connect runtime =>
    rcases act_connect b runtime with hb | hb <;> rw [hb]
    · exact h
    · exact h.congr rfl rfl rfl fun _ => rfl
  | detach => exact h.congr rfl rfl rfl fun _ => rfl
  | closeAll =>
    exact h.congr (roster_closeAll b) (table_closeAll b)
      (congrArg Backend.missed (backend_closeAll b)) fun scope =>
      congrArg (·.isOpen scope) (backend_closeAll b)
  | dispatch => exact h.dispatch

theorem Agrees.run {b : Bus α} (h : b.Agrees) (acts : List (Act α)) : (b.run acts).Agrees := by
  induction acts generalizing b with
  | nil => exact h
  | cons a acts ih => exact ih (h.act a)

theorem agrees_run (acts : List (Act α)) : (run {} acts : Bus α).Agrees := agrees_empty.run acts

/-- An act changes identifiers and roster as `enroll` says. -/
theorem enroll_act {b : Bus α} (h : b.Agrees) (a : Act α) :
    ((b.act a).nextId, (b.act a).roster) = enroll (b.nextId, b.roster) a := by
  have hnext : ∀ b' : Bus α, b'.table = b.table → b'.nextId = b.nextId :=
    fun _ ht => congrArg Table.nextId ht
  cases a with
  | publish e => rfl
  | subscribe scope =>
    exact Prod.ext (Table.nextId_register b.table scope) (roster_subscribe b scope)
  | drop id =>
    refine Prod.ext ?_ (h.roster_release id)
    simp only [enroll, nextId, Bus.act, release, releaseReport]
    split
    · rfl
    · split
      · split <;> exact Table.nextId_strike _ _ _
      · exact Table.nextId_strike _ _ _
  | read id => exact Prod.ext (hnext _ (table_read b id)) (roster_read b id)
  | connect runtime => rcases act_connect b runtime with hb | hb <;> rw [hb] <;> rfl
  | detach => rfl
  | closeAll => exact Prod.ext (hnext _ (table_closeAll b)) (roster_closeAll b)
  | dispatch => exact Prod.ext (hnext _ (table_dispatch b)) (roster_dispatch b)

theorem enroll_run {b : Bus α} (h : b.Agrees) (acts : List (Act α)) :
    ((b.run acts).nextId, (b.run acts).roster) = acts.foldl enroll (b.nextId, b.roster) := by
  induction acts generalizing b with
  | nil => rfl
  | cons a acts ih => rw [run_cons, ih (h.act a), List.foldl_cons, enroll_act h]

theorem roster_run (acts : List (Act α)) : (run {} acts : Bus α).roster = enrolled acts :=
  congrArg Prod.snd (enroll_run agrees_empty acts)

/-- No mailbox is registered twice, under any scopes. -/
theorem Agrees.nodup_all {b : Bus α} (h : b.Agrees) : b.table.all.Nodup := by
  have hentry : ∀ e ∈ b.table.channels, e.2 = b.table.listed (.channel e.1) := fun e he =>
    (Table.mailboxes_of_mem h.table he).symm
  have hmem : ∀ {scope id}, id ∈ b.table.listed scope → (id, scope) ∈ b.roster := fun hid =>
    mem_under.1 (h.listed _ ▸ hid)
  rw [Table.all, List.nodup_append, List.nodup_flatMap]
  refine ⟨⟨fun e he => hentry e he ▸ h.nodup_listed _, ?_⟩, h.nodup_listed .universal,
    fun x hx y hy => ?_⟩
  · refine (List.pairwise_map.1 h.table.keys).imp_of_mem fun {e e'} he he' hne => ?_
    intro id hid hid'
    replace hid : id ∈ e.2 := hid
    replace hid' : id ∈ e'.2 := hid'
    rw [hentry e he] at hid
    rw [hentry e' he'] at hid'
    exact hne (Scope.channel.inj (h.scope_unique (hmem hid) (hmem hid')))
  · obtain ⟨e, he, hxe⟩ := List.mem_flatMap.1 hx
    rintro rfl
    rw [hentry e he] at hxe
    cases h.scope_unique (hmem hxe) (hmem (show x ∈ b.table.listed .universal from hy))

/-- **Register and backend stay in step.** After every run: a channel has an entry exactly if a
mailbox is registered for it, and exactly if the backend has it live; a universal mailbox is
registered exactly if the backend's universal flag is set; registered under a scope are the
subscriptions that the run made with it and has not dropped, no mailbox twice; and no release finds
the two at odds. -/
theorem register_in_step (acts : List (Act α)) :
    let b : Bus α := run {} acts
    (∀ c, (b.hasChannel c = true ↔ b.table.mailboxes c ≠ []) ∧
      (b.hasChannel c = true ↔ b.backend.isSubscribed c = true)) ∧
    (∀ e ∈ b.table.channels, e.2 ≠ []) ∧
    (b.table.universal ≠ [] ↔ b.backend.universal = true) ∧
    (∀ scope id, id ∈ b.table.listed scope ↔ (id, scope) ∈ enrolled acts) ∧
    b.table.all.Nodup ∧
    ∀ id, (b.releaseReport id).2 = none := by
  intro b
  have h : b.Agrees := agrees_run acts
  refine ⟨fun c => ⟨Table.has_iff h.table c, ?_⟩, h.table.full, ?_, fun scope id => ?_, h.nodup_all,
    fun id => (h.releaseReport id).1⟩
  · exact (congrArg (· = true) (h.opened (.channel c))).to_iff.symm
  · rw [show b.backend.universal = b.table.isListed .universal from h.opened .universal,
      Table.isListed_iff h.table]
    exact Iff.rfl
  · rw [h.listed, mem_under, roster_run]

end Parley.Bus
