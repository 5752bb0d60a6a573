import Parley.Proofs.Session.Exchange
import Parley.Proofs.Session.Loop

/-!
# The life of a session

A `Life` is a world with a session in it, and a record of what has happened since the session's task
was started: its turns, the subscriptions that others have made, what was put into each mailbox, and
what others have done to the bus. It goes on (`Life.Step`) when the session's task, its completing
task or the dispatcher takes a turn, or when anybody else acts: he may do anything to the bus except
hand events out himself, also stop it, and anything to tasks that are not the session's.

`Life.Phase` says what is known at each stage: which subscriptions are left, whether the end has been
announced, and that the announcement is queued or has reached those who listen for it.
Every life is in such a phase (`Life.inv_of_reached`).
-/

set_option autoImplicit false

namespace Parley

open Exchange (Stands stands_place)

namespace Stage

/-- The end of the session has been announced. -/
def isAnnounced : Stage → Bool
  | flushing _ | disconnecting _ _ | done (.ok _) => true
  | _ => false

/-- The task that completes lines, while the session needs it or waits for its end. -/
def responder? : Stage → Option TaskId
  | asking _ (.input (.session r)) | awaitingLine _ (.input (.session r))
  | asking _ (.answer _ _ (.inputLoop (.session r)))
  | awaitingLine _ (.answer _ _ (.inputLoop (.session r)))
  | asking _ (.collected _ (.inputLoop (.session r)))
  | awaitingLine _ (.collected _ (.inputLoop (.session r)))
  | commanding _ (.inputLoop (.session r)) | prompting _ r | racing _ r | dismissing r _ => some r
  | _ => none

/-- The loop runs, or it has ended and the completing task is being dismissed. -/
def Attends (r : TaskId) (stage : Stage) : Prop := stage.Runs r ∨ stage = .dismissing r (.ok ())

/-- The stages of a session that is not told to end with an error. -/
def InLife (stage : Stage) : Prop :=
  stage = .unstarted .session ∨ (∃ r, stage.Attends r) ∨ stage.isAnnounced = true ∨
    ∃ e, stage = .done (.error e)

theorem responder?_of_attends {r : TaskId} {stage : Stage} (h : stage.Attends r) :
    stage.responder? = some r := by
  rcases h with h | rfl
  · cases stage with
    | asking plain use | awaitingLine reply use =>
      cases use with
      | input taker => cases h; rfl
      | answer default next caller => cases h; rfl
      | collected next caller => cases h; rfl
      | _ => exact h.elim
    | commanding rest caller => cases h; rfl
    | prompting prompt responder => cases h; rfl
    | racing race responder => cases h; rfl
    | _ => exact h.elim
  · rfl

end Stage

namespace Visit

/-- The turn announces the end of the session. -/
def announces (v : Visit) : Bool := !v.stage.isAnnounced && v.led.2.isAnnounced

end Visit

/-- A world with a session in it, and what has happened since its task was started. -/
structure Life where
  world : World
  /-- The turns of the session's task. -/
  log : List Visit := []
  /-- The subscriptions that others made, before the start and since. -/
  theirs : List SubscriptionId
  /-- What has been put into each mailbox. -/
  mailed : SubscriptionId → List (Delivery Message) := fun _ => []
  /-- What others have done to the bus. -/
  outside : List (Bus.Act Message) := []

/-- Dispatcher and tasks are in order: there is a dispatcher exactly while the bus is connected, and
its task is no other task. -/
structure Manned (w : World) : Prop where
  connected : w.dispatcher.isSome = w.bus.connected
  numbered : w.Numbered
  role : ∀ d a c, w.dispatcher = some d → w.task? d ≠ some ⟨d, .own a, c⟩

namespace Manned

variable {w w' : World}

theorem of_tasks (h : Manned w) (htasks : ∀ i, w'.task? i = w.task? i) (hnumbered : w'.Numbered)
    (hdispatcher : w'.dispatcher = w.dispatcher) (hbus : w'.bus.connected = w.bus.connected) :
    Manned w' := by
  refine ⟨by rw [hdispatcher, hbus, h.connected], hnumbered, fun d a c hd => ?_⟩
  rw [htasks]
  exact h.role d a c (hdispatcher ▸ hd)

theorem handles (h : Manned w) {held held' : List SubscriptionId}
    (hw : Handles held w held' w') : Manned w' := by
  refine h.of_tasks hw.task? (fun i hi => ?_) hw.dispatcher hw.bus.connected
  rw [hw.tasks] at hi
  exact hw.nextTask ▸ h.numbered i hi

theorem place (h : Manned w) {t : TaskId} {a : Activity} {c : Bool}
    (ht : w.task? t = some ⟨t, .own a, c⟩) (a' : Activity) : Manned (w.place t a') := by
  refine ⟨h.connected, Schedule.numbered_place h.numbered t a', fun d b c' hd => ?_⟩
  rw [Schedule.task?_place_of_ne]
  · exact h.role d b c' hd
  · rintro rfl
    exact h.role d a c hd ht

theorem remove (h : Manned w) (t : TaskId) : Manned (w.remove t) := by
  have hr : Schedule.Roused { w with tasks := w.tasks.filter (·.id != t) } (w.remove t) :=
    Schedule.roused_signal _ _
  refine ⟨by rw [hr.dispatcher, hr.bus, h.connected], Schedule.numbered_remove h.numbered t,
    fun d a c hd => ?_⟩
  rw [Schedule.task?_remove]
  split
  · nofun
  · exact h.role d a c (hr.dispatcher ▸ hd)

end Manned

namespace Life

/-- The task that is due takes its turn. -/
def turn (x : Life) : Life :=
  { x with
    world := x.world.step program
    mailed := fun id => x.mailed id ++ x.world.bus.arrivals (x.world.step program).bus id }

/-- Others have acted, and led the world to `w`. -/
def others (x : Life) (acts : List (Bus.Act Message)) (w : World) : Life :=
  { x with
    world := w
    theirs := x.theirs ++ List.range' x.world.bus.nextId (w.bus.nextId - x.world.bus.nextId)
    mailed := fun id =>
      x.mailed id ++ (x.world.bus.mail id acts).drop (x.world.bus.inbox id).length
    outside := x.outside ++ acts }

/-- What anybody else may do (module doc). -/
structure Others (t : TaskId) (stage : Stage) (x : Life) (acts : List (Bus.Act Message))
    (w : World) : Prop where
  bus : w.bus = x.world.bus.run acts
  hands : .dispatch ∉ acts
  manned : Manned w
  tasks : ∀ i, i = t ∨ stage.responder? = some i → w.task? i = x.world.task? i

inductive Step (t : TaskId) (x : Life) : Life → Prop
  | own {stage : Stage} {rest : List TaskId} (h : x.world.ready = t :: rest)
    (ht : Stands x.world t (.session stage)) :
    Step t x { x.turn with log := x.log ++ [⟨stage, { x.world with ready := rest }⟩] }
  | responder {stage : Stage} {r : TaskId} {rest : List TaskId} (h : x.world.ready = r :: rest)
    (ht : Stands x.world t (.session stage)) (hr : stage.responder? = some r) : Step t x x.turn
  | dispatcher {d : TaskId} {cancelled : Bool} {rest : List TaskId} (h : x.world.ready = d :: rest)
    (hd : x.world.task? d = some ⟨d, .dispatcher, cancelled⟩) : Step t x x.turn
  | others {stage : Stage} {acts : List (Bus.Act Message)} {w : World}
    (ht : Stands x.world t (.session stage)) (h : Others t stage x acts w) :
    Step t x (x.others acts w)

/-- What a session comes to, from its start in any world. -/
inductive Reached (t : TaskId) : Life → Prop
  | start {w : World} (hb : ∃ acts, w.bus = Bus.run {} acts) (hw : Manned w)
    (ht : Stands w t (.session (.unstarted .session))) :
    Reached t { world := w, theirs := w.bus.ids }
  | step {x y : Life} (hx : Reached t x) (h : Step t x y) : Reached t y

/-! ## What is known at each stage -/

/-- The announcement of the end that a session makes in `w`. -/
def exitEvent (w : World) : Event Message :=
  ⟨"session_exit",
    { id := .ofSerial w.stamped
      channel := "session_exit"
      source := .server
      data := .null
      extra := []
      createdAt := .ofMillis w.clock }⟩

/-- The event is among the deliveries, in front of any mark of the end. -/
def Told (e : Event Message) (ds : List (Delivery Message)) : Prop :=
  ∃ before after, ds = before ++ .event e :: after ∧ .closed ∉ before

theorem Told.append {e : Event Message} {ds : List (Delivery Message)} (h : Told e ds)
    (more : List (Delivery Message)) : Told e (ds ++ more) := by
  obtain ⟨before, after, rfl, hbefore⟩ := h
  exact ⟨before, after ++ more, by simp, hbefore⟩

/-- Besides what others made, only the given subscriptions exist. -/
def Owned (x : Life) (held : List SubscriptionId) : Prop :=
  ∀ i ∈ x.world.bus.ids, i ∈ x.theirs ∨ i ∈ held

/-- A mark of the end has been delivered only if others closed the bus. -/
def Unsealed (x : Life) : Prop := ∀ id, .closed ∈ x.mailed id → .closeAll ∈ x.outside

/-- The bus is connected, unless others took the dispatcher off it. -/
def Linked (x : Life) : Prop := x.world.bus.connected = true ∨ .detach ∈ x.outside

/-- The bus is not connected, unless others connected it. -/
def Unlinked (x : Life) : Prop :=
  x.world.bus.connected = false ∨ ∃ runtime, .connect runtime ∈ x.outside

/-- The completing task `r` listens with `q`, or it is gone and so is `q`. -/
structure Attended (t : TaskId) (w : World) (r : TaskId) (q : SubscriptionId) : Prop where
  other : r ≠ t
  old : q < w.bus.nextId
  stands : w.task? r = none ∧ q ∉ w.bus.ids ∨ ∃ c, w.task? r = some ⟨r, .own (.responder q), c⟩

/-- The turn `v` announced the end in the world `w`, and no other turn did. Everyone who listened for
it then, and still does, has been told or will be by an event in `queued`, unless others closed the
bus. -/
structure Announced (x : Life) (queued : List (Event Message)) (v : Visit) (w : World) : Prop where
  log : x.log.filter (·.announces) = [v]
  next : v.led = Stage.announce (.ok ()) w
  agrees : w.bus.Agrees
  nextId : w.bus.nextId ≤ x.world.bus.nextId
  told : .closeAll ∉ x.outside → ∀ p ∈ w.bus.roster, p.2.covers Channel.sessionExit = true →
    p ∈ x.world.bus.roster → Told (exitEvent w) (x.mailed p.1) ∨ exitEvent w ∈ queued

inductive Phase (t : TaskId) (x : Life) : Stage → Prop
  | unstarted (log : x.log.filter (·.announces) = []) (still : ∀ v ∈ x.log, v.led.1 = v.world)
    (owned : x.Owned []) (unsealed : x.Unsealed) : Phase t x (.unstarted .session)
  | refused {v : Visit} {e : BusError} (log : v ∈ x.log)
    (connect : v.stage = .unstarted .session ∧ v.world.connect = .error e)
    (still : ∀ v ∈ x.log, v.led.1 = v.world) : Phase t x (.done (.error (.bus e)))
  | attending {stage : Stage} {r : TaskId} {q : SubscriptionId} (attends : stage.Attends r)
    (attended : Attended t x.world r q) (owned : x.Owned (q :: stage.holds))
    (unsealed : x.Unsealed) (linked : x.Linked) (log : x.log.filter (·.announces) = []) :
    Phase t x stage
  | flushing {v : Visit} {w : World} (owned : x.Owned []) (unsealed : x.Unsealed)
    (linked : x.Linked) (announced : x.Announced x.world.bus.backend.queue v w) :
    Phase t x (.flushing (.ok ()))
  | disconnecting {task : TaskId} {v : Visit} {w : World} (owned : x.Owned [])
    (unlinked : x.Unlinked) (announced : x.Announced [] v w) :
    Phase t x (.disconnecting task (.ok ()))
  | done {v : Visit} {w : World} (owned : x.Owned []) (unlinked : x.Unlinked)
    (announced : x.Announced [] v w) : Phase t x (.done (.ok .unit))

/-! ## Steps that pass a stage by -/

/-- What happens between two lives in which the session stands at the same stage. -/
structure Passes (x y : Life) : Prop where
  log : ∃ more, y.log = x.log ++ more ∧ ∀ v ∈ more, v.announces = false ∧ v.led.1 = v.world
  theirs : ∀ i ∈ x.theirs, i ∈ y.theirs
  outside : ∀ a ∈ x.outside, a ∈ y.outside
  mailed : ∀ id, ∃ more, y.mailed id = x.mailed id ++ more ∧ (.closed ∈ more → .closeAll ∈ y.outside)
  ids : ∀ i ∈ y.world.bus.ids, i ∈ x.world.bus.ids ∨ i ∈ y.theirs
  nextId : x.world.bus.nextId ≤ y.world.bus.nextId
  roster : ∀ p ∈ y.world.bus.roster, p.1 < x.world.bus.nextId → p ∈ x.world.bus.roster
  linked : x.Linked → y.Linked
  unlinked : x.Unlinked → y.Unlinked
  queue : ∀ e ∈ x.world.bus.backend.queue, ∀ p ∈ x.world.bus.roster, p.2.covers e.channel = true →
    e ∈ y.world.bus.backend.queue ∨ y.mailed p.1 = x.mailed p.1 ++ [.event e]

namespace Passes

variable {t : TaskId} {x y : Life} (h : Passes x y)
include h

theorem log_eq {vs : List Visit} (hx : x.log.filter (·.announces) = vs) :
    y.log.filter (·.announces) = vs := by
  obtain ⟨more, hmore, hnone⟩ := h.log
  have hfilter : more.filter (·.announces) = [] :=
    List.filter_eq_nil_iff.2 fun v hv => by rw [(hnone v hv).1]; exact Bool.false_ne_true
  rw [hmore, List.filter_append, hfilter, List.append_nil, hx]

theorem still (hx : ∀ v ∈ x.log, v.led.1 = v.world) : ∀ v ∈ y.log, v.led.1 = v.world := by
  obtain ⟨more, hmore, hstill⟩ := h.log
  intro v hv
  rw [hmore] at hv
  rcases List.mem_append.1 hv with hv | hv
  · exact hx v hv
  · exact (hstill v hv).2

theorem owned {held : List SubscriptionId} (hx : x.Owned held) : y.Owned held := fun i hi => by
  rcases h.ids i hi with hi | hi
  · exact (hx i hi).imp_left (h.theirs i)
  · exact .inl hi

theorem unsealed (hx : x.Unsealed) : y.Unsealed := fun id hid => by
  obtain ⟨more, hmore, hclosed⟩ := h.mailed id
  rw [hmore, List.mem_append] at hid
  rcases hid with hid | hid
  · exact h.outside _ (hx id hid)
  · exact hclosed hid

theorem announced {queued queued' : List (Event Message)} {v : Visit} {w : World}
    (hx : x.Announced queued v w)
    (hq : .closeAll ∉ x.outside → ∀ p ∈ x.world.bus.roster,
      p.2.covers Channel.sessionExit = true → exitEvent w ∈ queued →
      Told (exitEvent w) (y.mailed p.1) ∨ exitEvent w ∈ queued') :
    y.Announced queued' v w := by
  refine ⟨h.log_eq hx.log, hx.next, hx.agrees, Nat.le_trans hx.nextId h.nextId,
    fun hopen p hp hcovers hp' => ?_⟩
  have hopen' : .closeAll ∉ x.outside := fun hm => hopen (h.outside _ hm)
  have hpx := h.roster p hp' (Nat.lt_of_lt_of_le (hx.agrees.old p hp) hx.nextId)
  rcases hx.told hopen' p hp hcovers hpx with htold | hqueued
  · obtain ⟨more, hmore, -⟩ := h.mailed p.1
    rw [hmore]
    exact .inl (htold.append more)
  · exact hq hopen' p hpx hcovers hqueued

/-- **A phase is kept by what passes it by.** -/
theorem phase {stage : Stage} (hx : Phase t x stage)
    (ha : ∀ r q, stage.responder? = some r → Attended t x.world r q → Attended t y.world r q) :
    Phase t y stage := by
  cases hx with
  | unstarted log still owned unsealed =>
    exact .unstarted (h.log_eq log) (h.still still) (h.owned owned) (h.unsealed unsealed)
  | refused log connect still =>
    obtain ⟨more, hmore, -⟩ := h.log
    exact .refused (hmore ▸ List.mem_append_left _ log) connect (h.still still)
  | attending attends attended owned unsealed linked log =>
    exact .attending attends (ha _ _ (Stage.responder?_of_attends attends) attended)
      (h.owned owned) (h.unsealed unsealed) (h.linked linked) (h.log_eq log)
  | flushing owned unsealed linked announced =>
    refine .flushing (h.owned owned) (h.unsealed unsealed) (h.linked linked)
      (h.announced announced fun hopen p hp hcovers hqueued => ?_)
    rcases h.queue _ hqueued p hp hcovers with hqueued | hmailed
    · exact .inr hqueued
    · -- no mark of the end has come before the announcement
      exact .inl ⟨x.mailed p.1, [], hmailed, fun hm => hopen (unsealed p.1 hm)⟩
  | disconnecting owned unlinked announced =>
    exact .disconnecting (h.owned owned) (h.unlinked unlinked)
      (h.announced announced fun _ _ _ _ hnone => absurd hnone List.not_mem_nil)
  | done owned unlinked announced =>
    exact .done (h.owned owned) (h.unlinked unlinked)
      (h.announced announced fun _ _ _ _ hnone => absurd hnone List.not_mem_nil)

end Passes

/-! ## What others do -/

section
variable {t : TaskId} {stage : Stage} {x : Life} {acts : List (Bus.Act Message)} {w : World}

theorem passes_others (hx : x.world.bus.Agrees) (h : Others t stage x acts w) :
    Passes x (x.others acts w) := by
  have hbus : (x.others acts w).world.bus = x.world.bus.run acts := h.bus
  have hrun := hx.run acts
  refine ⟨⟨[], (List.append_nil x.log).symm, fun v hv => absurd hv List.not_mem_nil⟩,
    fun i hi => List.mem_append_left _ hi,
    fun a ha => List.mem_append_left _ ha, fun id => ?_, fun i hi => ?_, ?_, fun p hp hlt => ?_,
    fun hlinked => ?_, fun hunlinked => ?_, fun e he p _ _ => .inl ?_⟩
  · refine ⟨(x.world.bus.mail id acts).drop (x.world.bus.inbox id).length, rfl, fun hclosed => ?_⟩
    -- silent acts put nothing into a mailbox
    refine Classical.byContradiction fun hnone => ?_
    have hsilent : ∀ a ∈ acts, a.Silent := by
      intro a ha
      constructor
      · rintro rfl
        exact h.hands ha
      · rintro rfl
        exact hnone (List.mem_append_right _ ha)
    rw [Bus.mail_of_silent id hsilent, List.drop_length] at hclosed
    cases hclosed
  · rw [hbus] at hi
    obtain ⟨p, hp, rfl⟩ := List.mem_map.1 hi
    have hlt := hrun.old p hp
    rcases hx.mem_roster_run hp with hp | hle
    · exact .inl (List.mem_map_of_mem hp)
    · refine .inr (List.mem_append_right _ (List.mem_range'_1.2 ⟨hle, ?_⟩))
      rw [h.bus, Nat.add_sub_cancel' (hx.nextId_run acts)]
      exact hlt
  · rw [hbus]
    exact hx.nextId_run acts
  · rw [hbus] at hp
    exact (hx.mem_roster_run hp).resolve_right (Nat.not_le.2 hlt)
  · rcases hlinked with hc | hd
    · by_cases hdetach : .detach ∈ acts
      · exact .inr (List.mem_append_right _ hdetach)
      · left
        rw [hbus]
        exact Bus.connected_run hc hdetach
    · exact .inr (List.mem_append_left _ hd)
  · rcases hunlinked with hc | ⟨runtime, hr⟩
    · by_cases hconnect : ∃ runtime, .connect runtime ∈ acts
      · obtain ⟨runtime, hr⟩ := hconnect
        exact .inr ⟨runtime, List.mem_append_right _ hr⟩
      · left
        rw [hbus]
        exact Bus.not_connected_run hc fun runtime hr => hconnect ⟨runtime, hr⟩
    · exact .inr ⟨runtime, List.mem_append_left _ hr⟩
  · rw [hbus]
    exact Bus.mem_queue_run he h.hands

end

/-! ## What the dispatcher does -/

theorem passes_dispatch {x y : Life} (hx : x.world.bus.Agrees) (hlog : y.log = x.log)
    (htheirs : y.theirs = x.theirs) (houtside : y.outside = x.outside)
    (hbus : y.world.bus = x.world.bus.dispatch)
    (hmailed : ∀ id, y.mailed id = x.mailed id ++ x.world.bus.arrivals x.world.bus.dispatch id) :
    Passes x y := by
  have hconnected : y.world.bus.connected = x.world.bus.connected := by
    rw [hbus]
    exact Bus.connected_dispatch x.world.bus
  have hroster : y.world.bus.roster = x.world.bus.roster := by
    rw [hbus, Bus.roster_dispatch]
  refine ⟨⟨[], by rw [hlog, List.append_nil], fun v hv => absurd hv List.not_mem_nil⟩,
    fun i hi => htheirs ▸ hi, fun a ha => houtside ▸ ha, fun id => ?_, fun i hi => .inl ?_, ?_,
    fun p hp _ => hroster ▸ hp, fun hlinked => ?_, fun hunlinked => ?_, fun e he p hp hcovers => ?_⟩
  · exact ⟨_, hmailed id, fun hclosed => absurd hclosed (hx.not_closed_dispatch id)⟩
  · rwa [Bus.ids, hroster] at hi
  · rw [hbus]
    exact hx.nextId_act .dispatch
  · rwa [Linked, hconnected, houtside]
  · rwa [Unlinked, hconnected, houtside]
  · rcases Bus.dispatch_cases x.world.bus with hrest | ⟨e₀, rest, hc, hq⟩
    · rw [hbus, Bus.dispatch_of_rest hrest]
      exact .inl he
    · rw [hq] at he
      rcases List.mem_cons.1 he with rfl | he
      · -- it is the turn of this event
        obtain ⟨s, hs, hscope⟩ := hx.exists_subscription (Bus.mem_under.2 hp)
        rw [hmailed, hx.arrivals_dispatch hs hc hq, hscope, if_pos hcovers]
        exact .inr rfl
      · rw [hbus, Bus.dispatch_cons hc hq]
        exact .inl he

/-! ## What a party of the session does -/

/-- A party that holds nothing new afterwards. -/
theorem passes_conduct {x y : Life} (hx : x.world.bus.Agrees) {held held' : List SubscriptionId}
    (hconduct : Bus.Conduct held x.world.bus held' y.world.bus)
    (hold : ∀ i ∈ held', i < x.world.bus.nextId)
    (hlog : ∃ more, y.log = x.log ++ more ∧ ∀ v ∈ more, v.announces = false ∧ v.led.1 = v.world)
    (htheirs : y.theirs = x.theirs) (houtside : y.outside = x.outside)
    (hmailed : ∀ id, y.mailed id = x.mailed id ++ x.world.bus.arrivals y.world.bus id) :
    Passes x y := by
  obtain ⟨acts, hrun, hprivate⟩ := hconduct.acts
  have hroster : ∀ p ∈ y.world.bus.roster, p ∈ x.world.bus.roster := by
    intro p hp
    have hids := hconduct.ids (List.mem_map_of_mem hp)
    rw [hrun] at hp
    refine (hx.mem_roster_run hp).resolve_right fun hle => ?_
    have hlt : p.1 < x.world.bus.nextId := by
      rcases hids with hheld | ⟨hi, -⟩
      · exact hold _ hheld
      · exact hx.lt_of_mem_ids hi
    exact Nat.lt_irrefl _ (Nat.lt_of_lt_of_le hlt hle)
  refine ⟨hlog, fun i hi => htheirs ▸ hi, fun a ha => houtside ▸ ha, fun id => ⟨[], ?_, nofun⟩,
    fun i hi => .inl ?_, hconduct.nextId hx, fun p hp _ => hroster p hp, fun hlinked => ?_,
    fun hunlinked => ?_, fun e he p _ _ => .inl ?_⟩
  · rw [hmailed, Bus.arrivals_of_le (hconduct.inbox id)]
  · obtain ⟨p, hp, rfl⟩ := List.mem_map.1 hi
    exact List.mem_map_of_mem (hroster p hp)
  · rwa [Linked, hconduct.connected, houtside]
  · rwa [Unlinked, hconduct.connected, houtside]
  · rw [hrun]
    exact Bus.mem_queue_run he fun hd => hprivate _ hd

/-! ## The turns of dispatcher and completing task -/

/-- What holds of every life. -/
structure Inv (t : TaskId) (x : Life) : Prop where
  agrees : x.world.bus.Agrees
  counted : x.world.bus.Counted
  manned : Manned x.world
  visits : ∀ v ∈ x.log, v.stage.InLife
  stage : ∃ stage, Stands x.world t (.session stage) ∧ Phase t x stage

variable {t : TaskId} {x : Life}

theorem Attended.frame {w w' : World} {r : TaskId} {q : SubscriptionId} (h : Attended t w r q)
    (htask : w'.task? r = w.task? r) (hids : q ∈ w'.bus.ids → q ∈ w.bus.ids)
    (hnext : w.bus.nextId ≤ w'.bus.nextId) : Attended t w' r q := by
  refine ⟨h.other, Nat.lt_of_lt_of_le h.old hnext, ?_⟩
  rw [htask]
  exact h.stands.imp_left fun ⟨hnone, hq⟩ => ⟨hnone, fun hm => hq (hids hm)⟩

/-- The bus when the dispatcher has had its turn. -/
theorem step_dispatcher {w : World} {d : TaskId} {c : Bool} {rest : List TaskId}
    (h : w.ready = d :: rest) (hd : w.task? d = some ⟨d, .dispatcher, c⟩) (hw : Manned w) :
    ((w.step program).bus = w.bus.dispatch ∨ (w.step program).bus = w.bus) ∧
      (∀ i, i ≠ d → (w.step program).task? i = w.task? i) ∧ Manned (w.step program) := by
  let popped : World := { w with ready := rest }
  have hpopped : Manned popped := hw.of_tasks (fun _ => rfl) hw.numbered rfl rfl
  cases c with
  | true =>
    have hstep : w.step program = popped.remove d := Schedule.step_cancelled h hd
    have hbus : (popped.remove d).bus = w.bus := (Schedule.roused_signal _ _).bus
    rw [hstep]
    refine ⟨.inr hbus, fun i hi => ?_, hpopped.remove d⟩
    rw [Schedule.task?_remove, if_neg hi]
    rfl
  | false =>
    have hstep : w.step program = popped.dispatchTurn d := Schedule.step_dispatcher h hd
    rw [hstep]
    cases hq : popped.bus.backend.queue with
    | nil =>
      rw [Schedule.dispatchTurn_of_rest hq]
      exact ⟨.inr rfl, fun _ _ => rfl, hpopped⟩
    | cons e es =>
      obtain ⟨hroused, -⟩ := Schedule.dispatchTurn_spec hq d
      have hconnected : (popped.dispatchTurn d).bus.connected = w.bus.connected := by
        rw [hroused.bus]
        exact Bus.connected_dispatch w.bus
      exact ⟨.inl hroused.bus, fun i _ => hroused.task? i, hpopped.of_tasks hroused.task?
        (hroused.numbered hpopped.numbered) hroused.dispatcher hconnected⟩

theorem Inv.dispatcher (hx : Inv t x) {d : TaskId} {c : Bool} {rest : List TaskId}
    (h : x.world.ready = d :: rest) (hd : x.world.task? d = some ⟨d, .dispatcher, c⟩) :
    Inv t x.turn := by
  obtain ⟨hbus, htasks, hmanned⟩ := step_dispatcher h hd hx.manned
  obtain ⟨stage, ht, hphase⟩ := hx.stage
  have hpasses : Passes x x.turn := by
    rcases hbus with hbus | hbus
    · refine passes_dispatch hx.agrees rfl rfl rfl hbus fun id => ?_
      rw [← hbus]
      rfl
    · have hconduct : Bus.Conduct [] x.world.bus [] x.turn.world.bus := hbus ▸ .rest
      exact passes_conduct hx.agrees hconduct nofun
        ⟨[], (List.append_nil x.log).symm, fun v hv => absurd hv List.not_mem_nil⟩ rfl rfl
        fun _ => rfl
  have hsame : ∀ i a c', x.world.task? i = some ⟨i, .own a, c'⟩ ∨ x.world.task? i = none →
      (x.world.step program).task? i = x.world.task? i := by
    intro i a c' hi
    refine htasks i ?_
    rintro rfl
    rw [hd] at hi
    rcases hi with hi | hi <;> cases hi
  refine ⟨?_, ?_, hmanned, hx.visits, stage, (hsame t _ _ (.inl ht)).trans ht,
    hpasses.phase hphase fun r q _ hr => hr.frame ?_ (fun hq => ?_) hpasses.nextId⟩
  · rcases hbus with hbus | hbus
    · exact hbus.symm ▸ hx.agrees.act .dispatch
    · exact hbus.symm ▸ hx.agrees
  · rcases hbus with hbus | hbus
    · exact hbus.symm ▸ hx.counted.act .dispatch
    · exact hbus.symm ▸ hx.counted
  · rcases hr.stands with ⟨hnone, -⟩ | ⟨c', hc'⟩
    · exact hsame r (.responder q) false (.inr hnone)
    · exact hsame r _ c' (.inl hc')
  · obtain ⟨p, hp, rfl⟩ := List.mem_map.1 hq
    exact List.mem_map_of_mem (hpasses.roster p hp hr.old)

/-- The completing task goes on with its listener, or it gives that back and ends. -/
theorem responderTurn_cases (q : SubscriptionId) (w : World) :
    (Handles [q] w [] (responderTurn q w).1 ∧ (responderTurn q w).2 = .finish) ∨
      Handles [q] w [q] (responderTurn q w).1 ∧
        ((responderTurn q w).2 = .wait (.responder q) ∨
          (responderTurn q w).2 = .again (.responder q)) := by
  unfold responderTurn
  split
  · exact .inr ⟨.rest, .inl rfl⟩
  · exact .inl ⟨handles_read w q, rfl⟩
  · exact .inr ⟨(handles_taken w List.mem_cons_self).trans (handles_send _ _ _), .inr rfl⟩

/-- The world when a task has had a turn after which it stands where it stood. -/
theorem Manned.settled {w : World} (h : Manned w) {r : TaskId} {a : Activity}
    (hr : w.task? r = some ⟨r, .own a, false⟩) {p : Progress Activity}
    (hp : p = .wait a ∨ p = .again a) :
    Manned (Schedule.settleTurn r (w, p)) ∧ (Schedule.settleTurn r (w, p)).bus = w.bus ∧
      ∀ i, (Schedule.settleTurn r (w, p)).task? i = w.task? i := by
  have hsame : ∀ i, (w.place r a).task? i = w.task? i := by
    intro i
    rw [Schedule.task?_place]
    cases hi : w.task? i with
    | none => rfl
    | some t =>
      rw [Option.map_some]
      split
      · next hir =>
        subst hir
        cases hr.symm.trans hi
        rfl
      · rfl
  rcases hp with rfl | rfl
  · exact ⟨h.place hr a, rfl, hsame⟩
  · exact ⟨(h.place hr a).of_tasks (fun _ => rfl) (h.place hr a).numbered rfl rfl, rfl, hsame⟩

/-- A completing task that is there holds one subscription. -/
theorem Attended.eq_of_task {w : World} {r : TaskId} {q q' : SubscriptionId} {c : Bool}
    (h : Attended t w r q') (hr : w.task? r = some ⟨r, .own (.responder q), c⟩) : q' = q := by
  rcases h.stands with ⟨hnone, -⟩ | ⟨c', hc'⟩
  · cases hr.symm.trans hnone
  · cases hr.symm.trans hc'
    rfl

/-- A task that ends gives back its one subscription. -/
theorem ended_responder {w w' : World} {r : TaskId} {q : SubscriptionId} (hr : Attended t w r q)
    (hw : Manned w) (ha : w.bus.Agrees) (h : Handles [q] w [] w') :
    Bus.Conduct [q] w.bus [] (w'.remove r).bus ∧
      (∀ i, i ≠ r → (w'.remove r).task? i = w.task? i) ∧ Manned (w'.remove r) ∧
      Attended t (w'.remove r) r q := by
  have hbus : (w'.remove r).bus = w'.bus := (Schedule.roused_signal _ _).bus
  have hconduct : Bus.Conduct [q] w.bus [] (w'.remove r).bus := hbus ▸ h.bus
  refine ⟨hconduct, fun i hi => ?_, (hw.handles h).remove r, hr.other,
    Nat.lt_of_lt_of_le hr.old (hconduct.nextId ha), .inl ⟨?_, fun hq => ?_⟩⟩
  · rw [Schedule.task?_remove, if_neg hi, h.task?]
  · rw [Schedule.task?_remove, if_pos rfl]
  · rcases hconduct.ids hq with hq | ⟨-, hq⟩
    · cases hq
    · exact hq List.mem_cons_self

theorem step_responder {w : World} {r : TaskId} {q : SubscriptionId} {rest : List TaskId}
    (h : w.ready = r :: rest) (hr : Attended t w r q) (hw : Manned w) (ha : w.bus.Agrees) :
    ∃ held, Bus.Conduct [q] w.bus held (w.step program).bus ∧ (∀ i ∈ held, i = q) ∧
      (∀ i, i ≠ r → (w.step program).task? i = w.task? i) ∧ Manned (w.step program) ∧
      ∀ q', Attended t w r q' → Attended t (w.step program) r q' := by
  let popped : World := { w with ready := rest }
  have hpopped : Manned popped := hw.of_tasks (fun _ => rfl) hw.numbered rfl rfl
  have hr' : Attended t popped r q := hr.frame rfl (fun hq => hq) (Nat.le_refl _)
  rcases hr.stands with ⟨hnone, -⟩ | ⟨c, hc⟩
  · have hstep : w.step program = popped := Schedule.step_none h hnone
    rw [hstep]
    exact ⟨[q], .rest, fun i hi => List.mem_singleton.1 hi, fun _ _ => rfl, hpopped,
      fun q' hq' => hq'.frame rfl (fun hq => hq) (Nat.le_refl _)⟩
  · -- cancelled or told of the end, it gives its subscription back and is gone
    have hends : ∀ w' : World, Handles [q] popped [] w' → w.step program = w'.remove r →
        ∃ held, Bus.Conduct [q] w.bus held (w.step program).bus ∧ (∀ i ∈ held, i = q) ∧
          (∀ i, i ≠ r → (w.step program).task? i = w.task? i) ∧ Manned (w.step program) ∧
          ∀ q', Attended t w r q' → Attended t (w.step program) r q' := by
      intro w' hhandles hstep
      obtain ⟨hconduct, htasks, hmanned, hattended⟩ := ended_responder hr' hpopped ha hhandles
      rw [← hstep] at hconduct htasks hmanned hattended
      exact ⟨[], hconduct, fun i hi => absurd hi List.not_mem_nil, htasks, hmanned,
        fun q' hq' => hq'.eq_of_task hc ▸ hattended⟩
    cases c with
    | true =>
      exact hends _ (handles_releaseAll popped [q]) (Schedule.step_cancelled h hc)
    | false =>
      have hstep : w.step program = Schedule.settleTurn r (responderTurn q popped) :=
        Schedule.step_own h hc
      have hcases := responderTurn_cases q popped
      generalize responderTurn q popped = led at hstep hcases
      obtain ⟨w', p⟩ := led
      rcases hcases with ⟨hhandles, hp⟩ | ⟨hhandles, hp⟩
      · obtain rfl : p = .finish := hp
        exact hends w' hhandles hstep
      · have hw' : Manned w' := hpopped.handles hhandles
        have hc' : w'.task? r = some ⟨r, .own (.responder q), false⟩ := (hhandles.task? r).trans hc
        obtain ⟨hmanned, hbus, htasks⟩ := Manned.settled hw' hc' hp
        have hconduct : Bus.Conduct [q] w.bus [q] (w.step program).bus := by
          rw [hstep, hbus]
          exact hhandles.bus
        have hsame : ∀ i, (w.step program).task? i = w.task? i := fun i => by
          rw [hstep, htasks, hhandles.task?]
          rfl
        refine ⟨[q], hconduct, fun i hi => List.mem_singleton.1 hi, fun i _ => hsame i, ?_,
          fun q' hq' => ⟨hr.other, ?_, .inr ⟨false, ?_⟩⟩⟩
        · rw [hstep]
          exact hmanned
        · exact Nat.lt_of_lt_of_le hq'.old (hconduct.nextId ha)
        · rw [hsame, hc, hq'.eq_of_task hc]

theorem Inv.responder (hx : Inv t x) {stage : Stage} {r : TaskId} {rest : List TaskId}
    (h : x.world.ready = r :: rest) (ht : Stands x.world t (.session stage))
    (hr : stage.responder? = some r) : Inv t x.turn := by
  obtain ⟨stage', ht', hphase⟩ := hx.stage
  obtain rfl : stage = stage' := by
    cases ht.symm.trans ht'
    rfl
  obtain ⟨q, hattended⟩ : ∃ q, Attended t x.world r q := by
    cases hphase with
    | attending attends attended owned unsealed linked log =>
      cases (Stage.responder?_of_attends attends).symm.trans hr
      exact ⟨_, attended⟩
    | _ => cases hr
  obtain ⟨held, hconduct, hheld, htasks, hmanned, hattended'⟩ :=
    step_responder h hattended hx.manned hx.agrees
  have hpasses : Passes x x.turn :=
    passes_conduct hx.agrees hconduct (fun i hi => hheld i hi ▸ hattended.old)
      ⟨[], (List.append_nil x.log).symm, fun v hv => absurd hv List.not_mem_nil⟩ rfl rfl
      fun _ => rfl
  refine ⟨hconduct.agrees hx.agrees, hconduct.counted hx.counted, hmanned, hx.visits, stage,
    (htasks t hattended.other.symm).trans ht, hpasses.phase hphase fun r' q' hr' hattends => ?_⟩
  cases hr.symm.trans hr'
  exact hattended' q' hattends

theorem Inv.others (hx : Inv t x) {stage : Stage} {acts : List (Bus.Act Message)} {w : World}
    (ht : Stands x.world t (.session stage)) (h : Others t stage x acts w) :
    Inv t (x.others acts w) := by
  obtain ⟨stage', ht', hphase⟩ := hx.stage
  obtain rfl : stage = stage' := by
    cases ht.symm.trans ht'
    rfl
  have hpasses := passes_others hx.agrees h
  refine ⟨?_, ?_, h.manned, hx.visits, stage, (h.tasks t (.inl rfl)).trans ht,
    hpasses.phase hphase fun r q hr hattends => ?_⟩
  · rw [show (x.others acts w).world.bus = _ from h.bus]
    exact hx.agrees.run acts
  · rw [show (x.others acts w).world.bus = _ from h.bus]
    exact hx.counted.run acts
  · refine hattends.frame (h.tasks r (.inr hr)) (fun hq => ?_) hpasses.nextId
    obtain ⟨p, hp, rfl⟩ := List.mem_map.1 hq
    exact List.mem_map_of_mem (hpasses.roster p hp hattends.old)

end Life

end Parley
