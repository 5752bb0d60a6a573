import Parley.Proofs.Session.Lifetime

/-!
# How a session starts, goes on and closes

The turns of the session's own task, stage by stage. The start is refused, or it connects the bus and
starts the completing task (`phase_startSession`). The loop goes on or ends, with nothing held
(`phase_runs`). Then the completing task is dismissed (`phase_endSession`), the end is announced
(`phase_announce`), and when the queue is empty the bus is disconnected (`phase_flush`). So every turn
leads from a phase to a phase (`Life.Inv.own`), and every life is in one (`Life.inv_of_reached`).
-/

set_option autoImplicit false

namespace Parley

open Exchange (Stands stands_place)

/-! ## Worlds in which a task may take its turn -/

/-- The task is there, and dispatcher and tasks are in order. -/
structure Seated (t : TaskId) (w : World) : Prop where
  manned : Manned w
  stands : ∃ a, Stands w t a

namespace Seated

variable {t : TaskId} {w : World}

theorem handles (h : Seated t w) {held held' : List SubscriptionId} {w' : World}
    (hw : Handles held w held' w') : Seated t w' := by
  obtain ⟨a, ha⟩ := h.stands
  exact ⟨h.manned.handles hw, a, (hw.task? t).trans ha⟩

theorem abort (h : Seated t w) {r : TaskId} (hr : r ≠ t) : Seated t (w.abort r) := by
  obtain ⟨htasks, hnumbered, hbus, hdispatcher, -⟩ := w.abort_spec r
  obtain ⟨a, ha⟩ := h.stands
  refine ⟨⟨?_, hnumbered h.manned.numbered, fun d b c hd hrole => ?_⟩, a, ?_⟩
  · rw [hdispatcher, hbus]
    exact h.manned.connected
  · rw [htasks] at hrole
    rw [hdispatcher] at hd
    cases hi : w.task? d with
    | none =>
      rw [hi] at hrole
      cases hrole
    | some i =>
      obtain ⟨id, role, cancelled⟩ := i
      rw [hi, Option.map_some] at hrole
      obtain rfl : id = d := (Schedule.task?_eq_some hi).2
      refine h.manned.role id b cancelled hd (hi.trans ?_)
      split at hrole <;> cases hrole <;> rfl
  · rw [Stands, htasks, show w.task? t = _ from ha, Option.map_some, if_neg (Ne.symm hr)]

theorem detach (h : Seated t w) : Seated t w.detach := by
  obtain ⟨a, ha⟩ := h.stands
  have hbare : Seated t { w with bus := w.bus.detach, dispatcher := none } :=
    ⟨⟨rfl, h.manned.numbered, fun d b c hd => by cases hd⟩, a, ha⟩
  unfold Schedule.detach
  split
  · next d hd =>
    refine hbare.abort ?_
    rintro rfl
    exact h.manned.role d a false hd ha
  · exact hbare

theorem closeAll (h : Seated t w) : Seated t w.closeAll := by
  obtain ⟨a, ha⟩ := h.stands
  have hr : Schedule.Roused { w with bus := w.bus.closeAll } w.closeAll :=
    Schedule.roused_signals _ _
  refine ⟨h.manned.of_tasks hr.task? (hr.numbered h.manned.numbered) hr.dispatcher ?_, a,
    (hr.task? t).trans ha⟩
  rw [hr.bus]
  exact Bus.connected_closeAll w.bus

end Seated

/-- The world after a turn of a session's task. -/
theorem landed {t : TaskId} {w : World} (h : Seated t w) (stage : Stage) :
    (Schedule.settleTurn t (sessionTurn (w, stage))).bus = w.bus ∧
      Stands (Schedule.settleTurn t (sessionTurn (w, stage))) t (.session stage) ∧
      (∀ i, i ≠ t → (Schedule.settleTurn t (sessionTurn (w, stage))).task? i = w.task? i) ∧
      Manned (Schedule.settleTurn t (sessionTurn (w, stage))) := by
  obtain ⟨a, ha⟩ := h.stands
  have hplaced : Manned (w.place t (.session stage)) := h.manned.place ha _
  have hstands : Stands (w.place t (.session stage)) t (.session stage) := stands_place ha rfl _
  have hothers : ∀ i, i ≠ t → (w.place t (.session stage)).task? i = w.task? i :=
    fun i hi => Schedule.task?_place_of_ne w hi _
  simp only [sessionTurn]
  split
  · exact ⟨rfl, hstands, hothers, hplaced.of_tasks (fun _ => rfl) hplaced.numbered rfl rfl⟩
  · exact ⟨rfl, hstands, hothers, hplaced⟩

/-! ## The bus while a session closes -/

theorem bus_detach (w : World) : w.detach.bus = w.bus.detach := by
  unfold Schedule.detach
  split
  · exact (Schedule.abort_spec _ _).2.2.1
  · rfl

theorem bus_closeAll (w : World) : w.closeAll.bus = w.bus.closeAll :=
  (Schedule.roused_signals _ _).bus

theorem bus_send (w : World) (o : Outgoing) :
    (w.send o).bus = w.bus.publish ⟨o.channel, w.stamp o⟩ :=
  (Schedule.roused_nudge _).bus

/-- An event that somebody covers is queued. -/
theorem mem_queue_publish {b : Bus Message} (h : b.Agrees) {p : SubscriptionId × Scope}
    (hp : p ∈ b.roster) {e : Event Message} (hcovers : p.2.covers e.channel = true) :
    e ∈ (b.publish e).backend.queue := by
  have hopen : b.backend.isOpen p.2 = true := by
    rw [h.opened, Table.isListed_iff h.table, h.listed]
    exact List.ne_nil_of_mem (Bus.mem_under.2 hp)
  have hheard : b.backend.hears e.channel = true :=
    (Backend.hears_iff b.backend e.channel).2 ⟨p.2, hcovers, hopen⟩
  rw [Bus.publish, Backend.publish_of_heard hheard]
  exact List.mem_append_right _ List.mem_cons_self

namespace Life

variable {t : TaskId} {x : Life}

/-- The life after a turn, in which the session's task is yet to be placed. -/
def landing (x : Life) (w : World) (extra : SubscriptionId → List (Delivery Message)) : Life :=
  { x with world := w, mailed := fun id => x.mailed id ++ extra id }

theorem landing_of_nil {w : World} {extra : SubscriptionId → List (Delivery Message)}
    (h : ∀ id, extra id = []) : x.landing w extra = { x with world := w } := by
  have hmailed : (fun id => x.mailed id ++ extra id) = x.mailed :=
    funext fun id => by rw [h, List.append_nil]
  rw [landing, hmailed]

/-! ## Flushing and disconnecting -/

theorem isAnnounced_flush (w : World) : (Stage.flush (.ok ()) w).2.isAnnounced = true := by
  unfold Stage.flush Stage.disconnect
  split
  · split <;> rfl
  · rfl

/-- What has been announced is still known in another world, if nobody is left to be told. -/
theorem Announced.empty {queued : List (Event Message)} {v : Visit} {w : World}
    (h : x.Announced queued v w) (hq : queued = []) {w' : World}
    (hroster : w'.bus.roster = x.world.bus.roster) (hnext : w'.bus.nextId = x.world.bus.nextId)
    (extra : SubscriptionId → List (Delivery Message)) : (x.landing w' extra).Announced [] v w := by
  refine ⟨h.log, h.next, h.agrees, ?_, fun hopen p hp hcovers hp' => .inl ?_⟩
  · rw [landing, hnext]
    exact h.nextId
  · rw [landing, hroster] at hp'
    rcases h.told hopen p hp hcovers hp' with htold | hm
    · exact htold.append _
    · rw [hq] at hm
      cases hm

theorem phase_closed (howned : x.Owned []) (hunlinked : x.Unlinked) {v : Visit} {w : World}
    (hannounced : x.Announced [] v w) (extra : SubscriptionId → List (Delivery Message)) :
    Phase t (x.landing (Stage.closed (.ok ()) x.world).1 extra)
      (Stage.closed (.ok ()) x.world).2 := by
  have hbus : (Stage.closed (.ok ()) x.world).1.bus = x.world.bus.closeAll := bus_closeAll x.world
  refine .done (fun i hi => ?_) ?_ (hannounced.empty rfl ?_ ?_ extra)
  · rw [landing, hbus, Bus.ids, Bus.roster_closeAll] at hi
    exact howned i hi
  · rw [Unlinked, landing, hbus, Bus.connected_closeAll]
    exact hunlinked
  · rw [hbus, Bus.roster_closeAll]
  · rw [hbus, Bus.nextId, Bus.table_closeAll]
    rfl

/-- **The last part**: the session waits for the queue, or takes the dispatcher off the bus, or, where
there is none, closes every listener. -/
theorem phase_flush (hcounted : x.world.bus.Counted) (hmanned : Manned x.world)
    (howned : x.Owned []) (hunsealed : x.Unsealed) (hlinked : x.Linked) {v : Visit} {w : World}
    (hannounced : x.Announced x.world.bus.backend.queue v w)
    (extra : SubscriptionId → List (Delivery Message))
    (hextra : ∀ id, ((Stage.flush (.ok ()) x.world).1.bus.inbox id).length ≤
      (x.world.bus.inbox id).length → extra id = []) :
    Phase t (x.landing (Stage.flush (.ok ()) x.world).1 extra)
      (Stage.flush (.ok ()) x.world).2 := by
  unfold Stage.flush at hextra ⊢
  split
  · next hidle =>
    have hqueue : x.world.bus.backend.queue = [] := hcounted.queue_eq_nil hidle
    rw [if_pos hidle] at hextra
    unfold Stage.disconnect at hextra ⊢
    cases hd : x.world.dispatcher with
    | none =>
      have hconnected : x.world.bus.connected = false := by
        rw [← hmanned.connected, hd]
        rfl
      exact phase_closed howned (.inl hconnected) (hqueue ▸ hannounced) extra
    | some d =>
      simp only [hd] at hextra ⊢
      have hbus := bus_detach x.world
      have hnil : ∀ id, extra id = [] := fun id => hextra id (by rw [hbus]; exact Nat.le_refl _)
      refine .disconnecting (fun i hi => ?_) (.inl ?_) (hannounced.empty hqueue ?_ ?_ extra)
      · rw [landing, hbus] at hi
        exact howned i hi
      · rw [landing, hbus]
        rfl
      · rw [hbus]
        rfl
      · rw [hbus]
        rfl
  · next hidle =>
    rw [if_neg hidle] at hextra
    rw [landing_of_nil fun id => hextra id (Nat.le_refl _)]
    exact .flushing howned hunsealed hlinked hannounced

theorem seated_flush (h : Seated t x.world) :
    Seated t (Stage.flush (.ok ()) x.world).1 := by
  unfold Stage.flush Stage.disconnect
  split
  · split
    · exact h.detach
    · exact h.closeAll
  · exact h

/-! ## Announcing the end -/

/-- The end is announced with nothing left but what others made. Everyone who listens for it finds
it in the queue. -/
theorem phase_announce (hagrees : x.world.bus.Agrees) (hcounted : x.world.bus.Counted)
    (hseated : Seated t x.world) (howned : x.Owned []) (hunsealed : x.Unsealed)
    (hlinked : x.Linked) {v : Visit} (hlog : x.log.filter (·.announces) = [v])
    (hv : v.led = Stage.announce (.ok ()) x.world)
    (extra : SubscriptionId → List (Delivery Message))
    (hextra : ∀ id, (v.led.1.bus.inbox id).length ≤ (x.world.bus.inbox id).length →
      extra id = []) :
    Phase t (x.landing v.led.1 extra) v.led.2 ∧ Seated t v.led.1 := by
  let sent := x.world.send { channel := Channel.sessionExit }
  have hbus : sent.bus = x.world.bus.publish (exitEvent x.world) := bus_send x.world _
  have hsent : Handles [] x.world [] sent := handles_send [] x.world _
  have hflush : v.led = Stage.flush (.ok ()) sent := hv
  have hcountedSent : sent.bus.Counted := hbus ▸ hcounted.act (.publish (exitEvent x.world))
  have hannounced : Announced { x with world := sent } sent.bus.backend.queue v x.world := by
    refine ⟨hlog, hv, hagrees, hsent.bus.nextId hagrees, fun _ p hp hcovers _ => .inr ?_⟩
    rw [hbus]
    exact mem_queue_publish hagrees hp hcovers
  rw [hflush] at hextra ⊢
  refine ⟨phase_flush (x := { x with world := sent }) hcountedSent
    (hseated.handles hsent).manned (fun i hi => ?_) hunsealed ?_ hannounced extra fun id hle => ?_,
    seated_flush (x := { x with world := sent }) (hseated.handles hsent)⟩
  · rw [hbus] at hi
    exact howned i hi
  · rw [Linked, hbus]
    exact hlinked
  · refine hextra id ?_
    rw [show (sent.bus.inbox id).length = (x.world.bus.inbox id).length by rw [hbus]; rfl] at hle
    exact hle

theorem announces_of_not {v : Visit} (h : v.stage.isAnnounced = false) :
    v.announces = v.led.2.isAnnounced := by
  rw [Visit.announces, h]
  rfl

/-- The turn `v` is the last one in the log and was not preceded by an announcement. -/
structure Latest (x : Life) (v : Visit) : Prop where
  log : ∃ before, x.log = before ++ [v] ∧ before.filter (·.announces) = []
  stage : v.stage.isAnnounced = false

theorem Latest.filter {v : Visit} (h : x.Latest v) :
    x.log.filter (·.announces) = if v.led.2.isAnnounced then [v] else [] := by
  obtain ⟨before, hlog, hbefore⟩ := h.log
  rw [hlog, List.filter_append, hbefore, List.nil_append, List.filter_singleton,
    announces_of_not h.stage]
  cases v.led.2.isAnnounced <;> rfl

/-- The completing task is gone, so the end is announced. -/
theorem phase_of_dismissed (hagrees : x.world.bus.Agrees) (hcounted : x.world.bus.Counted)
    (hseated : Seated t x.world) {r : TaskId} {q : SubscriptionId}
    (hattended : Attended t x.world r q) (hr : x.world.task? r = none) (howned : x.Owned [q])
    (hunsealed : x.Unsealed) (hlinked : x.Linked) {v : Visit} (hlatest : x.Latest v)
    (hv : v.led = Stage.announce (.ok ()) x.world)
    (extra : SubscriptionId → List (Delivery Message))
    (hextra : ∀ id, (v.led.1.bus.inbox id).length ≤ (x.world.bus.inbox id).length →
      extra id = []) :
    Phase t (x.landing v.led.1 extra) v.led.2 ∧ Seated t v.led.1 := by
  have hgone : q ∉ x.world.bus.ids := by
    rcases hattended.stands with ⟨-, hq⟩ | ⟨c, hc⟩
    · exact hq
    · cases hr.symm.trans hc
  have hlog : x.log.filter (·.announces) = [v] := by
    rw [hlatest.filter, if_pos]
    rw [hv]
    exact isAnnounced_flush _
  refine phase_announce hagrees hcounted hseated (fun i hi => ?_) hunsealed hlinked hlog hv extra
    hextra
  refine (howned i hi).imp_right fun hq => ?_
  rw [List.mem_singleton.1 hq] at hi
  exact absurd hi hgone

/-- **The end of the loop**, with nothing held but what the completing task listens with. -/
theorem phase_endSession (hagrees : x.world.bus.Agrees) (hcounted : x.world.bus.Counted)
    (hseated : Seated t x.world) {r : TaskId} {q : SubscriptionId}
    (hattended : Attended t x.world r q) (howned : x.Owned [q]) (hunsealed : x.Unsealed)
    (hlinked : x.Linked) {v : Visit} (hlatest : x.Latest v)
    (hv : v.led = Stage.endSession r (.ok ()) x.world)
    (extra : SubscriptionId → List (Delivery Message))
    (hextra : ∀ id, (v.led.1.bus.inbox id).length ≤ (x.world.bus.inbox id).length →
      extra id = []) :
    Phase t (x.landing v.led.1 extra) v.led.2 ∧ Seated t v.led.1 := by
  cases hr : x.world.task? r with
  | none =>
    have hannounce : v.led = Stage.announce (.ok ()) x.world := by
      rw [hv, Stage.endSession, hr]
      rfl
    exact phase_of_dismissed hagrees hcounted hseated hattended hr howned hunsealed hlinked hlatest
      hannounce extra hextra
  | some i =>
    have hdismiss : v.led = (x.world.abort r, .dismissing r (.ok ())) := by
      rw [hv, Stage.endSession, hr]
      rfl
    obtain ⟨htasks, -, hbus, -⟩ := x.world.abort_spec r
    have hlog : x.log.filter (·.announces) = [] := by
      rw [hlatest.filter, hdismiss]
      rfl
    rw [hdismiss] at hextra ⊢
    rw [landing_of_nil fun id => hextra id (Nat.le_of_eq (by rw [hbus]))]
    refine ⟨.attending (q := q) (.inr rfl) ⟨hattended.other, ?_, ?_⟩ (fun i hi => ?_) hunsealed ?_ hlog,
      hseated.abort hattended.other⟩
    · rw [hbus]
      exact hattended.old
    · rw [htasks, hbus]
      refine hattended.stands.imp (fun ⟨hnone, hq⟩ => ⟨by rw [hnone, Option.map_none], hq⟩) ?_
      rintro ⟨c, hc⟩
      exact ⟨true, by rw [hc, Option.map_some, if_pos rfl]⟩
    · rw [hbus] at hi
      exact howned i hi
    · rw [Linked, hbus]
      exact hlinked

/-! ## Turns of the loop -/

theorem isAnnounced_of_attends {r : TaskId} {stage : Stage} (h : stage.Attends r) :
    stage.isAnnounced = false := by
  rcases h with h | rfl
  · cases stage <;> first | rfl | exact h.elim
  · rfl

/-- What a party did that may have taken new subscriptions, but holds none of them without saying. -/
theorem owned_handles {q : SubscriptionId} {held held' : List SubscriptionId}
    {w : World} (howned : x.Owned (q :: held)) (h : Handles held x.world held' w) :
    Owned { x with world := w } (q :: held') := fun i hi => by
  rcases h.bus.ids hi with hi | ⟨hi, hnot⟩
  · exact .inr (List.mem_cons_of_mem _ hi)
  · rcases howned i hi with hi | hi
    · exact .inl hi
    · rcases List.mem_cons.1 hi with rfl | hi
      · exact .inr List.mem_cons_self
      · exact absurd hi hnot

theorem attended_handles (hagrees : x.world.bus.Agrees) {r : TaskId} {q : SubscriptionId}
    (hattended : Attended t x.world r q) {held held' : List SubscriptionId} {w : World}
    (h : Handles held x.world held' w) : Attended t w r q := by
  refine hattended.frame (h.task? r) (fun hq => ?_) (h.bus.nextId hagrees)
  obtain ⟨acts, hrun, -⟩ := h.bus.acts
  obtain ⟨p, hp, rfl⟩ := List.mem_map.1 hq
  rw [hrun] at hp
  exact List.mem_map_of_mem
    ((hagrees.mem_roster_run hp).resolve_right (Nat.not_le.2 hattended.old))

/-- **A turn of the loop.** -/
theorem phase_runs (hagrees : x.world.bus.Agrees) (hcounted : x.world.bus.Counted)
    (hseated : Seated t x.world) {v : Visit} (hworld : v.world = x.world) {r : TaskId}
    {q : SubscriptionId} (hruns : v.stage.Runs r) (hattended : Attended t x.world r q)
    (howned : x.Owned (q :: v.stage.holds)) (hunsealed : x.Unsealed) (hlinked : x.Linked)
    (hlatest : x.Latest v) :
    Phase t (x.landing v.led.1 (x.world.bus.arrivals v.led.1.bus)) v.led.2 ∧
      Seated t v.led.1 := by
  have hgoes : Stage.Goes r v.stage.holds x.world v.led := hworld ▸ Stage.goes_turn hruns v.world
  rcases hgoes with ⟨hstage, hhandles⟩ | ⟨w, hhandles, hv⟩
  · have hnil : ∀ id, x.world.bus.arrivals v.led.1.bus id = [] := fun id =>
      Bus.arrivals_of_le (hhandles.bus.inbox id)
    have hlog : x.log.filter (·.announces) = [] := by
      rw [hlatest.filter, isAnnounced_of_attends (.inl hstage)]
      rfl
    rw [landing_of_nil hnil]
    refine ⟨.attending (.inl hstage) (attended_handles hagrees hattended hhandles)
      (owned_handles howned hhandles) hunsealed ?_ hlog, hseated.handles hhandles⟩
    rw [Linked, hhandles.bus.connected]
    exact hlinked
  · -- the loop has ended in `w`, with nothing held
    have hended := phase_endSession (x := { x with world := w }) (hhandles.bus.agrees hagrees)
      (hhandles.bus.counted hcounted) (hseated.handles hhandles)
      (attended_handles hagrees hattended hhandles) (owned_handles howned hhandles)
      hunsealed (by rw [Linked, hhandles.bus.connected]; exact hlinked)
      ⟨hlatest.log, hlatest.stage⟩ hv
      (x.world.bus.arrivals v.led.1.bus) fun id hle =>
        Bus.arrivals_of_le (Nat.le_trans hle (hhandles.bus.inbox id))
    exact hended

/-! ## The start -/

/-- A start that is not refused connects the bus and starts the dispatcher and the completing task,
which listens. -/
structure Started (w w' : World) (r : TaskId) (q : SubscriptionId) : Prop where
  bus : w'.bus =
    Bus.subscribe { w.bus with connected := true } (.channel Channel.completionRequest)
  subscription : q = w.bus.nextId
  responder : w'.task? r = some ⟨r, .own (.responder q), false⟩
  other : w.nextTask ≤ r
  tasks : ∀ i a, Stands w i a → Stands w' i a
  manned : Manned w'

theorem started_of_connect {w w' : World} (hw : Manned w) (h : Schedule.connect w = .ok w') :
    let listening := w'.listen Channel.completionRequest
    Started w (listening.spawn (.responder w'.nextSubscription)) listening.nextTask
      w'.nextSubscription := by
  intro listening
  obtain rfl := Schedule.connect_spec h
  let connected : World := { w.spawnRole .dispatcher with
    bus := { w.bus with connected := true }, dispatcher := some w.nextTask }
  have hroused : Schedule.Roused { connected with
      bus := connected.bus.subscribe (.channel Channel.completionRequest) } listening :=
    Schedule.roused_nudge _
  have hconnected : connected.Numbered := Schedule.numbered_spawnRole hw.numbered _
  have hnumbered : listening.Numbered := hroused.numbered hconnected
  have hd : listening.task? w.nextTask = some ⟨w.nextTask, .dispatcher, false⟩ :=
    (hroused.task? _).trans (Schedule.task?_spawnRole hw.numbered _)
  refine ⟨hroused.bus, rfl, Schedule.task?_spawnRole hnumbered _, ?_, fun i a hi => ?_, ?_,
    Schedule.numbered_spawnRole hnumbered _, fun d a c hdispatcher => ?_⟩
  · rw [hroused.nextTask]
    exact Nat.le_succ _
  · refine Schedule.task?_spawnRole_of_some ((hroused.task? i).trans ?_) _
    exact Schedule.task?_spawnRole_of_some hi _
  · change listening.dispatcher.isSome = listening.bus.connected
    rw [hroused.dispatcher, hroused.bus]
    rfl
  · have hsome : listening.dispatcher = some d := hdispatcher
    rw [hroused.dispatcher] at hsome
    cases hsome
    rw [Schedule.spawn, Schedule.task?_spawnRole_of_some hd]
    nofun

theorem phase_started (hseated : Seated t x.world)
    (howned : x.Owned []) (hunsealed : x.Unsealed) {v : Visit}
    (hstage : v.stage = .unstarted .session) (hworld : v.world = x.world) (hlatest : x.Latest v)
    {w : World} (hconnect : Schedule.connect x.world = .ok w) :
    Phase t (x.landing v.led.1 (x.world.bus.arrivals v.led.1.bus)) v.led.2 ∧
      Seated t v.led.1 := by
  have hstarted := started_of_connect hseated.manned hconnect
  have hnext : v.led = ((w.listen Channel.completionRequest).spawn (.responder w.nextSubscription),
      .asking false (.input (.session (w.listen Channel.completionRequest).nextTask))) := by
    rw [Visit.led, hstage, hworld]
    simp only [Stage.turn, Stage.start, Stage.startSession, hconnect]
    rfl
  have hlog : x.log.filter (·.announces) = [] := by
    rw [hlatest.filter, hnext]
    rfl
  obtain ⟨a, ha⟩ := hseated.stands
  have hlt : t < x.world.nextTask := hseated.manned.numbered _ (Schedule.task?_eq_some ha).1
  rw [hnext]
  simp only at hstarted ⊢
  have hnil : ∀ id, x.world.bus.arrivals
      ((w.listen Channel.completionRequest).spawn (.responder w.nextSubscription)).bus id = [] := by
    intro id
    refine Bus.arrivals_of_le ?_
    rw [hstarted.bus, Bus.inbox_subscribe]
    exact Nat.le_refl _
  rw [landing_of_nil hnil]
  refine ⟨.attending (q := w.nextSubscription) (.inl rfl) ⟨?_, ?_, .inr ⟨false, hstarted.responder⟩⟩
    (fun i hi => ?_) hunsealed (.inl ?_) hlog, hstarted.manned, a, hstarted.tasks t a ha⟩
  · exact Nat.ne_of_gt (Nat.lt_of_lt_of_le hlt hstarted.other)
  · rw [hstarted.bus, hstarted.subscription]
    exact Nat.lt_of_lt_of_eq (Nat.lt_succ_self _) (Table.nextId_register _ _).symm
  · rw [hstarted.bus] at hi
    rcases Bus.mem_ids_subscribe.1 hi with hi | rfl
    · rcases howned i hi with hi | hi
      · exact .inl hi
      · cases hi
    · exact .inr (hstarted.subscription ▸ List.mem_cons_self)
  · rw [hstarted.bus]
    rfl

/-! ## Every turn -/

/-- The life when the session's task is about to take its turn. -/
def visited (x : Life) (stage : Stage) (rest : List TaskId) : Life :=
  { x with
    world := { x.world with ready := rest }
    log := x.log ++ [⟨stage, { x.world with ready := rest }⟩] }

/-- Where the turn leads, before the task is placed there. -/
def Lands (t : TaskId) (x : Life) (stage : Stage) (rest : List TaskId) : Prop :=
  let led := stage.turn { x.world with ready := rest }
  Phase t ((x.visited stage rest).landing led.1 (x.world.bus.arrivals led.1.bus)) led.2 ∧
    Seated t led.1

variable {stage : Stage} {rest : List TaskId}

/-- A turn that leaves the session where it stands. -/
theorem lands_stayed (hx : Inv t x) (hseated : Seated t { x.world with ready := rest })
    (hphase : Phase t x stage)
    (hturn : stage.turn { x.world with ready := rest } = ({ x.world with ready := rest }, stage)) :
    Lands t x stage rest := by
  have hquiet : Visit.announces ⟨stage, { x.world with ready := rest }⟩ = false := by
    rw [Visit.announces, show Visit.led ⟨stage, _⟩ = _ from hturn]
    exact Bool.not_and_self _
  rw [Lands, hturn]
  refine ⟨?_, hseated⟩
  have hpasses : Passes x ((x.visited stage rest).landing { x.world with ready := rest }
      (x.world.bus.arrivals x.world.bus)) := by
    have hconduct : Bus.Conduct [] x.world.bus [] x.world.bus := .rest
    refine passes_conduct hx.agrees hconduct nofun ⟨_, rfl, fun v hv => ?_⟩ rfl rfl fun _ => rfl
    rw [List.mem_singleton.1 hv]
    exact ⟨hquiet, congrArg Prod.fst hturn⟩
  exact hpasses.phase hphase fun r q _ hr => hr.frame rfl (fun hq => hq) (Nat.le_refl _)

/-- The turn is the latest in the log, if none before it announced the end. -/
theorem latest_visited (hlog : x.log.filter (·.announces) = []) (hs : stage.isAnnounced = false) :
    (x.visited stage rest).Latest ⟨stage, { x.world with ready := rest }⟩ :=
  ⟨⟨x.log, rfl, hlog⟩, hs⟩

/-- Behind an announcement further turns change nothing about it. -/
theorem Announced.visited {queued : List (Event Message)} {v : Visit} {w : World}
    (h : x.Announced queued v w) (hs : stage.isAnnounced = true) :
    (x.visited stage rest).Announced queued v w := by
  refine ⟨?_, h.next, h.agrees, h.nextId, h.told⟩
  have hquiet : Visit.announces ⟨stage, { x.world with ready := rest }⟩ = false := by
    simp [Visit.announces, hs]
  rw [Life.visited, List.filter_append, h.log, List.filter_singleton, hquiet]
  rfl

theorem lands_unstarted (hseated : Seated t { x.world with ready := rest })
    (howned : x.Owned []) (hunsealed : x.Unsealed) (hlog : x.log.filter (·.announces) = [])
    (hstill : ∀ v ∈ x.log, v.led.1 = v.world) :
    Lands t x (.unstarted .session) rest := by
  cases hconnect : Schedule.connect { x.world with ready := rest } with
  | ok w =>
    exact phase_started (x := x.visited (.unstarted .session) rest) hseated howned hunsealed rfl rfl
      (latest_visited hlog rfl) hconnect
  | error e =>
    have hturn : (Stage.unstarted .session).turn { x.world with ready := rest } =
        ({ x.world with ready := rest }, .done (.error (.bus e))) := by
      simp only [Stage.turn, Stage.start, Stage.startSession, hconnect]
      rfl
    rw [Lands, hturn]
    refine ⟨.refused (v := ⟨.unstarted .session, { x.world with ready := rest }⟩) ?_
      ⟨rfl, hconnect⟩ fun v hv => ?_, hseated⟩
    · exact List.mem_append_right _ List.mem_cons_self
    · rcases List.mem_append.1 hv with hv | hv
      · exact hstill v hv
      · rw [List.mem_singleton.1 hv]
        exact congrArg Prod.fst hturn

theorem lands_dismissing (hx : Inv t x) (hseated : Seated t { x.world with ready := rest })
    {r : TaskId} {q : SubscriptionId} (hattended : Attended t x.world r q) (howned : x.Owned [q])
    (hunsealed : x.Unsealed) (hlinked : x.Linked) (hlog : x.log.filter (·.announces) = [])
    (hr : x.world.task? r = none) : Lands t x (.dismissing r (.ok ())) rest := by
  have hr' : Schedule.task? { x.world with ready := rest } r = none := hr
  have hturn : (Stage.dismissing r (.ok ())).turn { x.world with ready := rest } =
      Stage.announce (.ok ()) { x.world with ready := rest } := by
    simp only [Stage.turn, hr', Option.isSome_none, Bool.false_eq_true, if_false]
  exact phase_of_dismissed (x := x.visited (.dismissing r (.ok ())) rest) hx.agrees hx.counted
    hseated (hattended.frame rfl (fun hq => hq) (Nat.le_refl _)) hr howned hunsealed hlinked
    (latest_visited hlog rfl) hturn _ fun id hle => Bus.arrivals_of_le hle

theorem lands_disconnecting (hseated : Seated t { x.world with ready := rest }) {task : TaskId}
    {v : Visit} {w : World} (howned : x.Owned []) (hunlinked : x.Unlinked)
    (hannounced : x.Announced [] v w) (htask : x.world.task? task = none) :
    Lands t x (.disconnecting task (.ok ())) rest := by
  have htask' : Schedule.task? { x.world with ready := rest } task = none := htask
  have hturn : (Stage.disconnecting task (.ok ())).turn { x.world with ready := rest } =
      Stage.closed (.ok ()) { x.world with ready := rest } := by
    simp only [Stage.turn, htask', Option.isSome_none, Bool.false_eq_true, if_false]
  rw [Lands, hturn]
  exact ⟨phase_closed (x := x.visited (.disconnecting task (.ok ())) rest) howned hunlinked
    (hannounced.visited rfl) _, hseated.closeAll⟩

/-- **Every turn of the session leads from a phase to a phase.** -/
theorem lands (hx : Inv t x) (hseated : Seated t { x.world with ready := rest })
    (hphase : Phase t x stage) : Lands t x stage rest := by
  -- a wait that goes on, and a session that is over, do nothing
  have hstays := lands_stayed hx hseated hphase
  cases hphase with
  | unstarted log still owned unsealed => exact lands_unstarted hseated owned unsealed log still
  | refused log connect still => exact hstays rfl
  | done owned unlinked announced => exact hstays rfl
  | @attending _ r q attends attended owned unsealed linked log =>
    rcases attends with hruns | rfl
    · exact phase_runs (x := x.visited stage rest) (v := ⟨stage, { x.world with ready := rest }⟩)
        hx.agrees hx.counted hseated rfl hruns (attended.frame rfl (fun hq => hq) (Nat.le_refl _)) owned unsealed linked
        (latest_visited log (isAnnounced_of_attends (.inl hruns)))
    · cases hr : x.world.task? r with
      | none => exact lands_dismissing hx hseated attended owned unsealed linked log hr
      | some i =>
        have hr' : Schedule.task? { x.world with ready := rest } r = some i := hr
        exact hstays (by simp only [Stage.turn, hr', Option.isSome_some, if_true])
  | @flushing v w owned unsealed linked announced =>
    exact ⟨phase_flush (x := x.visited (.flushing (.ok ())) rest) hx.counted hseated.manned owned
      unsealed linked (announced.visited rfl) _ fun id hle => Bus.arrivals_of_le hle,
      seated_flush (x := x.visited (.flushing (.ok ())) rest) hseated⟩
  | @disconnecting task v w owned unlinked announced =>
    cases htask : x.world.task? task with
    | none => exact lands_disconnecting hseated owned unlinked announced htask
    | some i =>
      have htask' : Schedule.task? { x.world with ready := rest } task = some i := htask
      exact hstays (by simp only [Stage.turn, htask', Option.isSome_some, if_true])

theorem inLife_of_phase (h : Phase t x stage) : stage.InLife := by
  cases h with
  | unstarted => exact .inl rfl
  | attending attends => exact .inr (.inl ⟨_, attends⟩)
  | refused => exact .inr (.inr (.inr ⟨_, rfl⟩))
  | _ => exact .inr (.inr (.inl rfl))

/-- A phase does not depend on where the session's task has been placed. -/
theorem phase_placed (hagrees : x.world.bus.Agrees) (hphase : Phase t x stage) {w : World}
    (hbus : w.bus = x.world.bus) (htasks : ∀ i, i ≠ t → w.task? i = x.world.task? i) :
    Phase t { x with world := w } stage := by
  have hpasses : Passes x { x with world := w } := by
    have hconduct : Bus.Conduct [] x.world.bus [] w.bus := hbus ▸ .rest
    refine passes_conduct hagrees hconduct nofun
      ⟨[], (List.append_nil _).symm, fun v hv => absurd hv List.not_mem_nil⟩ rfl rfl fun id => ?_
    rw [Bus.arrivals_of_le (Nat.le_of_eq (by rw [hbus])), List.append_nil]
  refine hpasses.phase hphase fun r q _ hr => hr.frame (htasks r hr.other) (fun hq => ?_) ?_
  · rwa [hbus] at hq
  · exact Nat.le_of_eq (by rw [hbus])

theorem Inv.own (hx : Inv t x) (h : x.world.ready = t :: rest)
    (ht : Stands x.world t (.session stage)) :
    Inv t { x.turn with log := x.log ++ [⟨stage, { x.world with ready := rest }⟩] } := by
  obtain ⟨stage', ht', hphase⟩ := hx.stage
  obtain rfl : stage = stage' := by
    cases ht.symm.trans ht'
    rfl
  have hseated : Seated t { x.world with ready := rest } :=
    ⟨hx.manned.of_tasks (fun _ => rfl) hx.manned.numbered rfl rfl, _, ht⟩
  have hstep : x.world.step program =
      Schedule.settleTurn t (sessionTurn (stage.turn { x.world with ready := rest })) :=
    Schedule.step_own h ht
  obtain ⟨hlands, hled⟩ := lands hx hseated hphase
  obtain ⟨acts, hacts⟩ := (Stage.calls_turn stage { x.world with ready := rest }).bus
  obtain ⟨hbus, hstands, hothers, hmanned⟩ :=
    landed hled (stage.turn { x.world with ready := rest }).2
  rw [← hstep] at hbus hstands hothers hmanned
  have hrun : (x.world.step program).bus = x.world.bus.run acts := hbus.trans hacts
  refine ⟨?_, ?_, hmanned, fun v hv => ?_, _, hstands, ?_⟩
  · exact hrun.symm ▸ hx.agrees.run acts
  · exact hrun.symm ▸ hx.counted.run acts
  · rcases List.mem_append.1 hv with hv | hv
    · exact hx.visits v hv
    · rw [List.mem_singleton.1 hv]
      exact inLife_of_phase hphase
  · have hplaced := phase_placed (hacts.symm ▸ hx.agrees.run acts) hlands hbus hothers
    rw [turn, hbus]
    exact hplaced

/-- **Every life is in one of the phases.** -/
theorem inv_of_reached (h : Reached t x) : Inv t x := by
  induction h with
  | @start w hb hw ht =>
    obtain ⟨acts, hacts⟩ := hb
    refine ⟨hacts ▸ Bus.agrees_run acts, hacts ▸ Bus.counted_run acts, hw,
      fun v hv => absurd hv List.not_mem_nil, _, ht,
      .unstarted rfl (fun v hv => absurd hv List.not_mem_nil) (fun i hi => .inl hi) ?_⟩
    exact fun id hid => absurd hid List.not_mem_nil
  | step _ h ih =>
    cases h with
    | own h ht => exact ih.own h ht
    | responder h ht hr => exact ih.responder h ht hr
    | dispatcher h hd => exact ih.dispatcher h hd
    | others ht h => exact ih.others ht h

end Life

end Parley
