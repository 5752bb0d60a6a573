import Parley.Proofs.Bus.Publishing
import Parley.Proofs.Session.Completions
import Parley.Proofs.Session.Dues
import Parley.Proofs.Session.Finale
import Parley.Proofs.Session.Visit

/-!
# Requests for completions are answered

A `Service` is a world in which a session runs and its stream has not been stopped, and a record of
what has been done on the bus since the completing task listens, and of what that task has published.
It goes on (`Service.Step`) when the session's task takes a turn and stays in its loop, when the
completing task or the dispatcher takes a turn, or when others do anything but hand events out, take
the dispatcher off the bus or close it, touch the mailbox of the completing task, move one of these
tasks, or forget to rouse the dispatcher. No turn of the three tasks is left out (`exists_turn`), and
others may send messages (`others_send`) and use subscriptions of their own (`exists_others`).

`Service.Account` keeps account of the completing task: it has answered what it has read, one by one,
what it has read and what lies in its mailbox is what was handed out on its channel, and it is due
while anything lies there. So when no task is due it has answered everything that was published
(`answers_requests`).
-/

set_option autoImplicit false

namespace Parley

open Exchange (Stands stands_place roused_send)

/-! ## Services -/

structure Service where
  world : World
  /-- The task that completes lines, and the subscription with which it takes requests. -/
  responder : TaskId
  listener : SubscriptionId
  /-- The bus when that task had been started. -/
  opened : Bus Message
  /-- What has been done on the bus since. -/
  acts : List (Bus.Act Message) := []
  /-- What that task has published. -/
  replies : List (Event Message) := []

namespace Service

/-- The session's task takes its first turn. -/
def start (w : World) : Service :=
  { world := w.step program, responder := w.nextTask + 1, listener := w.bus.nextId
    opened := (w.step program).bus }

/-- The task that is due takes its turn, and does so much on the bus. -/
def turn (x : Service) (acts : List (Bus.Act Message)) : Service :=
  { x with world := x.world.step program, acts := x.acts ++ acts }

/-- What the completing task publishes by that is counted among the replies. -/
def replying (x : Service) (acts : List (Bus.Act Message)) : Service :=
  { x.turn acts with replies := x.replies ++ Bus.published acts }

/-- The requests for completions: those that waited when the completing task was started, and those
that have been published since. -/
def requests (x : Service) : List (Event Message) :=
  Event.on Channel.completionRequest (x.opened.backlog ++ Bus.published x.acts)

/-- What others may do (module doc). -/
structure Others (t : TaskId) (x : Service) (acts : List (Bus.Act Message)) (w : World) : Prop where
  bus : w.bus = x.world.bus.run acts
  acts : ∀ a ∈ acts, a.Silent ∧ a ≠ .detach ∧ a.Avoids x.listener
  registry : w.shared.registry = x.world.shared.registry
  dispatcher : w.dispatcher = x.world.dispatcher
  dues : Dues x.world w
  tasks : ∀ i, i = t ∨ i = x.responder ∨ x.world.dispatcher = some i →
    w.task? i = x.world.task? i

inductive Step (t : TaskId) (x : Service) : Service → Prop
  | session {stage : Stage} {rest : List TaskId} {acts : List (Bus.Act Message)}
    (h : x.world.ready = t :: rest) (ht : Stands x.world t (.session stage))
    (hloop : (stage.turn { x.world with ready := rest }).2.Runs x.responder)
    (hb : (x.world.step program).bus = x.world.bus.run acts) (ha : .dispatch ∉ acts) :
    Step t x (x.turn acts)
  | responder {rest : List TaskId} {acts : List (Bus.Act Message)}
    (h : x.world.ready = x.responder :: rest)
    (hb : (x.world.step program).bus = x.world.bus.run acts) (ha : .dispatch ∉ acts) :
    Step t x (x.replying acts)
  | dispatcher {d : TaskId} {rest : List TaskId} (h : x.world.ready = d :: rest)
    (hd : x.world.dispatcher = some d) :
    Step t x (x.turn [.dispatch])
  | others {acts : List (Bus.Act Message)} {w : World} (h : Others t x acts w) :
    Step t x { x with world := w, acts := x.acts ++ acts }

/-- What a session comes to that was started in any world, as long as it has not ended. -/
inductive Reached (t : TaskId) : Service → Prop
  | start {w : World} {rest : List TaskId} (hb : ∃ acts, w.bus = Bus.run {} acts) (hw : Manned w)
    (hready : w.ready = t :: rest) (ht : Stands w t (.session (.unstarted .session)))
    (hc : w.bus.connected = false) : Reached t (start w)
  | step {x y : Service} (hx : Reached t x) (h : Step t x y) : Reached t y

/-- The completions of the text that a request carries: none, if it carries no text or one that
cannot be split into words. -/
def expected (registry : Registry) (request : Message) : List Words.Completion :=
  match request.text? with
  | none => []
  | some text =>
    match registry.completions text with
    | .ok completions => completions
    | .error _ => []

structure Answers (registry : Registry) (request reply : Event Message) : Prop where
  channel : reply.channel = request.payload.replyChannel
  completions :
    Words.Completion.listOfValue? reply.payload.data = some (expected registry request.payload)

theorem completionsFor_eq (registry : Registry) (request : Message) :
    completionsFor registry request = expected registry request := by
  unfold completionsFor expected
  cases request.text? with
  | none => rfl
  | some text => rfl

theorem answers_completionReply (w : World) (request : Event Message) :
    let reply := completionReply w.shared.registry request.payload
    Answers w.shared.registry request ⟨reply.channel, w.stamp reply⟩ := by
  intro reply
  refine ⟨rfl, ?_⟩
  rw [← completionsFor_eq]
  exact listOfValue?_completionReply w.shared.registry request.payload

/-- The account of the completing task (module doc): what lies in its mailbox, and what it has
read. -/
structure Account (x : Service) (inbox : List (Delivery Message)) (taken : List (Event Message)) :
    Prop where
  tracks : x.world.bus.Tracks x.listener Channel.completionRequest inbox taken
    (x.opened.handed x.acts)
  answered : List.Forall₂ (Answers x.world.shared.registry) taken x.replies
  unsealed : .closed ∉ inbox
  due : inbox ≠ [] → x.responder ∈ x.world.ready

/-- What holds of every service. -/
structure Inv (t : TaskId) (x : Service) : Prop where
  opened : x.opened.Agrees
  bus : x.world.bus = x.opened.run x.acts
  connected : x.world.bus.connected = true
  dispatcher : ∃ d, x.world.dispatcher = some d ∧
    x.world.task? d = some { id := d, role := .dispatcher }
  nudged : x.world.Nudged
  session : ∃ stage, Stands x.world t (.session stage) ∧ stage.Runs x.responder ∧
    x.listener ∉ stage.holds
  responder : Stands x.world x.responder (.responder x.listener)
  account : ∃ inbox taken, Account x inbox taken

variable {t : TaskId} {x y : Service}

theorem Inv.agrees (h : Inv t x) : x.world.bus.Agrees := h.bus ▸ h.opened.run x.acts

theorem not_runs_endSession (r : TaskId) (outcome : Except Error Unit) (w : World) (r' : TaskId) :
    ¬ (Stage.endSession r outcome w).2.Runs r' := by
  have hclosing := Stage.isClosing_endSession r outcome w
  intro hruns
  cases hs : (Stage.endSession r outcome w).2 <;> rw [hs] at hclosing hruns <;>
    first | exact hruns | cases hclosing

/-! ## Steps that leave the mailbox alone -/

/-- The dispatcher is queued when it has to be, also without a task that is not the dispatcher. -/
theorem Inv.nudged_popped (h : Inv t x) {i : TaskId} {rest : List TaskId}
    (hready : x.world.ready = i :: rest) (hi : x.world.dispatcher ≠ some i) :
    Schedule.Nudged { x.world with ready := rest } := by
  intro d hd hq
  have hmem := h.nudged d hd hq
  rw [hready] at hmem
  refine (List.mem_cons.1 hmem).resolve_left ?_
  rintro rfl
  exact hi hd

theorem Inv.dispatcher_ne (h : Inv t x) {i : TaskId} {a : Activity} (hi : Stands x.world i a) :
    x.world.dispatcher ≠ some i := by
  intro hd
  obtain ⟨d, hd', htask⟩ := h.dispatcher
  cases hd.symm.trans hd'
  cases htask.symm.trans hi

theorem Inv.responder_ne (h : Inv t x) {stage : Stage} (ht : Stands x.world t (.session stage)) :
    x.responder ≠ t := by
  intro heq
  have hresponder := h.responder
  rw [heq] at hresponder
  cases hresponder.symm.trans ht

theorem Inv.responder_ne_dispatcher (h : Inv t x) {d : TaskId} (hd : x.world.dispatcher = some d) :
    x.responder ≠ d := by
  rintro rfl
  exact h.dispatcher_ne h.responder hd

/-- The completing task is due also without the task that takes its turn. -/
theorem mem_rest {i : TaskId} {rest : List TaskId} (hready : x.world.ready = i :: rest)
    (hi : x.responder ≠ i) (hdue : x.responder ∈ x.world.ready) : x.responder ∈ rest := by
  rw [hready] at hdue
  exact (List.mem_cons.1 hdue).resolve_left hi

/-- The completing task is among those to whom requests are handed out. -/
theorem Inv.mem_recipients (h : Inv t x) :
    x.listener ∈ x.world.bus.recipients Channel.completionRequest := by
  obtain ⟨inbox, taken, haccount⟩ := h.account
  rw [← List.count_pos_iff, h.agrees.count_recipients haccount.tracks.mem_roster]
  exact Nat.one_pos

theorem handed_append_of_no_dispatch (x : Service) {acts : List (Bus.Act Message)}
    (ha : .dispatch ∉ acts) : x.opened.handed (x.acts ++ acts) = x.opened.handed x.acts := by
  rw [Bus.handed_append, Bus.handed_of_no_dispatch ha, List.append_nil]

theorem Inv.carried (h : Inv t x) {acts : List (Bus.Act Message)} {w : World} {stage : Stage}
    (hb : w.bus = x.world.bus.run acts) (hd : .dispatch ∉ acts)
    (hsub : w.bus.subscription? x.listener = x.world.bus.subscription? x.listener)
    (hconnected : w.bus.connected = true)
    (hregistry : w.shared.registry = x.world.shared.registry)
    (hdispatcher : w.dispatcher = x.world.dispatcher) (hnudged : w.Nudged)
    (hdue : x.responder ∈ x.world.ready → x.responder ∈ w.ready)
    (htasks : ∀ i, i = x.responder ∨ x.world.dispatcher = some i → w.task? i = x.world.task? i)
    (ht : Stands w t (.session stage)) (hruns : stage.Runs x.responder)
    (hholds : x.listener ∉ stage.holds) :
    Inv t { x with world := w, acts := x.acts ++ acts } := by
  refine ⟨h.opened, ?_, hconnected, ?_, hnudged, ⟨stage, ht, hruns, hholds⟩, ?_, ?_⟩
  · rw [hb, h.bus, Bus.run_append]
  · obtain ⟨d, hd', htask⟩ := h.dispatcher
    exact ⟨d, hdispatcher.trans hd', (htasks d (.inr hd')).trans htask⟩
  · exact (htasks x.responder (.inl rfl)).trans h.responder
  · obtain ⟨inbox, taken, haccount⟩ := h.account
    refine ⟨inbox, taken, ?_, ?_, haccount.unsealed, fun hne => hdue (haccount.due hne)⟩
    · rw [handed_append_of_no_dispatch x hd]
      exact haccount.tracks.congr hsub
    · rw [hregistry]
      exact haccount.answered

theorem Inv.others (h : Inv t x) {acts : List (Bus.Act Message)} {w : World}
    (hw : Others t x acts w) : Inv t { x with world := w, acts := x.acts ++ acts } := by
  obtain ⟨stage, ht, hruns, hholds⟩ := h.session
  obtain ⟨inbox, taken, haccount⟩ := h.account
  have hdispatch : .dispatch ∉ acts := fun hmem => (hw.acts _ hmem).1.1 rfl
  have hdetach : .detach ∉ acts := fun hmem => (hw.acts _ hmem).2.1 rfl
  refine h.carried hw.bus hdispatch ?_ ?_ hw.registry hw.dispatcher (hw.dues.nudged h.nudged)
    (hw.dues.kept _) ?_ ((hw.tasks t (.inl rfl)).trans ht) hruns hholds
  · rw [hw.bus, haccount.tracks.mailbox]
    exact h.agrees.subscription?_kept haccount.tracks.mailbox fun a ha =>
      ⟨(hw.acts a ha).1, (hw.acts a ha).2.2⟩
  · rw [hw.bus]
    exact Bus.connected_run h.connected hdetach
  · intro i hi
    exact hw.tasks i (.inr hi)

/-- **A turn of the session's task** in which it stays in its loop. -/
theorem Inv.session_turn (h : Inv t x) {stage : Stage} {rest : List TaskId}
    {acts : List (Bus.Act Message)} (hready : x.world.ready = t :: rest)
    (ht : Stands x.world t (.session stage))
    (hloop : (stage.turn { x.world with ready := rest }).2.Runs x.responder)
    (hb : (x.world.step program).bus = x.world.bus.run acts) (ha : .dispatch ∉ acts) :
    Inv t (x.turn acts) := by
  let popped : World := { x.world with ready := rest }
  obtain ⟨stage', ht', hruns, hholds⟩ := h.session
  obtain rfl : stage = stage' := by
    cases ht.symm.trans ht'
    rfl
  have hhandles : Handles stage.holds popped (stage.turn popped).2.holds (stage.turn popped).1 := by
    rcases Stage.goes_turn hruns popped with ⟨-, hhandles⟩ | ⟨w', -, hled⟩
    · exact hhandles
    · rw [show stage.turn { x.world with ready := rest } = _ from hled] at hloop
      exact absurd hloop (not_runs_endSession _ _ _ _)
  have hdues := stage.dues_turn popped
  have hregistry := (stage.calls_turn popped).registry
  have hgoes := goesOnAt_session hready ht
  simp only at hgoes
  generalize stage.turn popped = led at hhandles hdues hregistry hgoes hloop
  have hall : Dues popped (x.world.step program) := hdues.trans hgoes.dues
  obtain ⟨inbox, taken, haccount⟩ := h.account
  have hold : x.listener < popped.bus.nextId := h.agrees.old _ haccount.tracks.mem_roster
  refine h.carried hb ha ?_ ?_ ?_ ?_ ?_ ?_ ?_ ?_ hloop ?_
  · rw [hgoes.bus]
    exact hhandles.bus.mailbox h.agrees hholds hold
  · rw [hgoes.bus, hhandles.bus.connected]
    exact h.connected
  · rw [hgoes.shared, hregistry]
  · rw [hgoes.dispatcher, hhandles.dispatcher]
  · exact hall.nudged (h.nudged_popped hready (h.dispatcher_ne ht))
  · intro hdue
    exact hall.kept _ (mem_rest hready (h.responder_ne ht) hdue)
  · intro i hi
    have hne : i ≠ t := by
      rcases hi with rfl | hi
      · exact h.responder_ne ht
      · rintro rfl
        exact h.dispatcher_ne ht hi
    rw [hgoes.task?]
    exact (Schedule.task?_place_of_ne _ hne _).trans (hhandles.task? i)
  · have hstands : Stands led.1 t (.session stage) := (hhandles.task? t).trans ht
    exact (hgoes.task? t).trans (stands_place hstands rfl _)
  · intro hmem
    rcases hhandles.bus.fresh h.agrees hmem with hmem | hle
    · exact hholds hmem
    · exact absurd hold (Nat.not_lt.2 hle)

/-! ## The completing task and the dispatcher -/

/-- A task that is placed where it stood is where it was. -/
theorem task?_place_self {w : World} {i : TaskId} {a : Activity} (h : Stands w i a) (j : TaskId) :
    (w.place i a).task? j = w.task? j := by
  by_cases hj : j = i
  · subst hj
    exact (stands_place h rfl a).trans (Eq.symm h)
  · exact Schedule.task?_place_of_ne w hj a

/-- After its turn the completing task stands where it stood, and only what it has done on the bus is
new. -/
theorem Inv.responder_settled (h : Inv t x) {rest : List TaskId} {acts : List (Bus.Act Message)}
    {replies : List (Event Message)} {led : World × Progress Activity}
    (hready : x.world.ready = x.responder :: rest)
    (hturn : responderTurn x.listener { x.world with ready := rest } = led)
    (hprogress : led.2 = .wait (.responder x.listener) ∨ led.2 = .again (.responder x.listener))
    (hhandles : Handles [x.listener] { x.world with ready := rest } [x.listener] led.1)
    (hb : (x.world.step program).bus = x.world.bus.run acts)
    (haccount : ∃ inbox taken, Account { x with
      world := x.world.step program, acts := x.acts ++ acts, replies := replies } inbox taken) :
    Inv t { x with world := x.world.step program, acts := x.acts ++ acts, replies := replies } := by
  have hgoes : GoesOnAt x.responder (.responder x.listener) led.1 (x.world.step program) := by
    rw [← hturn] at hprogress ⊢
    exact goesOnAt_responder hready h.responder hprogress
  have hdeeds := deeds_responderTurn (p := fun _ => True) (fun _ => trivial) x.listener
    { x.world with ready := rest }
  rw [hturn] at hdeeds
  have hstands : Stands led.1 x.responder (.responder x.listener) :=
    (hhandles.task? x.responder).trans h.responder
  have hsame : ∀ i, (x.world.step program).task? i = x.world.task? i := by
    intro i
    rw [hgoes.task?, task?_place_self hstands, hhandles.task?]
    rfl
  have hpopped : Schedule.Nudged { x.world with ready := rest } :=
    h.nudged_popped hready (h.dispatcher_ne h.responder)
  obtain ⟨stage, ht, hruns, hholds⟩ := h.session
  refine ⟨h.opened, ?_, ?_, ?_, ?_, ⟨stage, ?_, hruns, hholds⟩, ?_, haccount⟩
  · change (x.world.step program).bus = _
    rw [hb, h.bus, Bus.run_append]
  · change (x.world.step program).bus.connected = true
    rw [hgoes.bus, hhandles.bus.connected]
    exact h.connected
  · obtain ⟨d, hd, hdtask⟩ := h.dispatcher
    exact ⟨d, (hgoes.dispatcher.trans hhandles.dispatcher).trans hd, (hsame d).trans hdtask⟩
  · exact (hdeeds.dues.trans hgoes.dues).nudged hpopped
  · exact (hsame t).trans ht
  · exact (hsame x.responder).trans h.responder

/-- The completing task finds its mailbox empty, and waits. -/
theorem Inv.responder_waits (h : Inv t x) {rest : List TaskId} {acts : List (Bus.Act Message)}
    {taken : List (Event Message)} (haccount : Account x [] taken)
    (hready : x.world.ready = x.responder :: rest)
    (hb : (x.world.step program).bus = x.world.bus.run acts) (ha : .dispatch ∉ acts) :
    Inv t (x.replying acts) := by
  let popped : World := { x.world with ready := rest }
  have hpeek : popped.peek x.listener = .waiting := haccount.tracks.reading
  have hturn : responderTurn x.listener popped = (popped, .wait (.responder x.listener)) := by
    simp only [responderTurn, hpeek]
  have hstep : x.world.step program =
      Schedule.settleTurn x.responder (popped, .wait (.responder x.listener)) := by
    rw [← hturn]
    exact Schedule.step_own hready h.responder
  have hbus : (x.world.step program).bus = x.world.bus := by
    rw [hstep]
    rfl
  have hnone : Bus.published acts = [] := by
    apply List.Perm.eq_nil
    apply h.agrees.perm_published ha
    intro c
    rw [← hb, hbus, Event.on_nil, List.append_nil]
  refine h.responder_settled hready hturn (.inl rfl) .rest hb ⟨[], taken, ?_, ?_, ?_, ?_⟩
  · change (x.world.step program).bus.Tracks _ _ _ _ (x.opened.handed (x.acts ++ acts))
    rw [handed_append_of_no_dispatch x ha, hbus]
    exact haccount.tracks
  · change List.Forall₂ (Answers (x.world.step program).shared.registry) _ _
    rw [hnone, List.append_nil, hstep]
    exact haccount.answered
  · exact List.not_mem_nil
  · intro hne
    exact absurd rfl hne

/-- The completing task reads a request, and publishes the reply. -/
theorem Inv.responder_answers (h : Inv t x) {rest : List TaskId} {acts : List (Bus.Act Message)}
    {request : Event Message} {inbox : List (Delivery Message)} {taken : List (Event Message)}
    (haccount : Account x (.event request :: inbox) taken)
    (hready : x.world.ready = x.responder :: rest)
    (hb : (x.world.step program).bus = x.world.bus.run acts) (ha : .dispatch ∉ acts) :
    Inv t (x.replying acts) := by
  let popped : World := { x.world with ready := rest }
  have hpeek : popped.peek x.listener = .event request := haccount.tracks.reading
  let reply := completionReply x.world.shared.registry request.payload
  let sent : Event Message := ⟨reply.channel, (popped.taken x.listener).stamp reply⟩
  have hturn : responderTurn x.listener popped =
      ((popped.taken x.listener).send reply, .again (.responder x.listener)) := by
    simp only [responderTurn, hpeek]
    rfl
  have hstep : x.world.step program = Schedule.settleTurn x.responder
      ((popped.taken x.listener).send reply, .again (.responder x.listener)) := by
    rw [← hturn]
    exact Schedule.step_own hready h.responder
  have hsend := roused_send (popped.taken x.listener) reply
  have hbus : (x.world.step program).bus = (x.world.bus.read x.listener).2.publish sent := by
    rw [hstep]
    exact hsend.bus
  have hregistry : (x.world.step program).shared.registry = x.world.shared.registry := by
    rw [hstep]
    exact congrArg (·.shared.registry) hsend.same
  have hone : Bus.published acts = [sent] := by
    apply List.perm_singleton.1
    apply h.agrees.perm_published ha
    intro c
    have hread : (x.world.bus.read x.listener).2.backlog = x.world.bus.backlog := by
      rw [Bus.backlog, Bus.backend_read, Bus.backlog]
    have hagrees : (x.world.bus.read x.listener).2.Agrees := h.agrees.act (.read x.listener)
    rw [← hb, hbus, hagrees.backlog_publish, hread, Event.on_append]
  have hhandles : Handles [x.listener] popped [x.listener]
      ((popped.taken x.listener).send reply) :=
    (handles_taken popped List.mem_cons_self).trans (handles_send _ _ _)
  obtain ⟨-, htracks⟩ := haccount.tracks.read
  refine h.responder_settled hready hturn (.inr rfl) hhandles hb
    ⟨inbox, taken ++ [request], ?_, ?_, ?_, ?_⟩
  · change (x.world.step program).bus.Tracks _ _ _ _ (x.opened.handed (x.acts ++ acts))
    rw [handed_append_of_no_dispatch x ha, hbus]
    exact htracks.congr rfl
  · change List.Forall₂ (Answers (x.world.step program).shared.registry) _ _
    rw [hone, hregistry]
    refine List.rel_append haccount.answered (.cons ?_ .nil)
    exact answers_completionReply (popped.taken x.listener) request
  · exact fun hmem => haccount.unsealed (List.mem_cons_of_mem _ hmem)
  · intro _
    change x.responder ∈ (x.world.step program).ready
    rw [hstep]
    exact List.mem_cons_self

/-- **A turn of the completing task**: it waits, or it answers a request. -/
theorem Inv.responder_turn (h : Inv t x) {rest : List TaskId} {acts : List (Bus.Act Message)}
    (hready : x.world.ready = x.responder :: rest)
    (hb : (x.world.step program).bus = x.world.bus.run acts) (ha : .dispatch ∉ acts) :
    Inv t (x.replying acts) := by
  obtain ⟨inbox, taken, haccount⟩ := h.account
  cases inbox with
  | nil => exact h.responder_waits haccount hready hb ha
  | cons d inbox =>
    cases d with
    | event request => exact h.responder_answers haccount hready hb ha
    | closed => exact absurd List.mem_cons_self haccount.unsealed

theorem Inv.dispatched (h : Inv t x) {w : World} (hbus : w.bus = x.world.bus.dispatch)
    (htasks : ∀ i, w.task? i = x.world.task? i) (hdispatcher : w.dispatcher = x.world.dispatcher)
    (hnudged : w.Nudged)
    (haccount : ∃ inbox taken,
      Account { x with world := w, acts := x.acts ++ [.dispatch] } inbox taken) :
    Inv t { x with world := w, acts := x.acts ++ [.dispatch] } := by
  obtain ⟨stage, ht, hruns, hholds⟩ := h.session
  refine ⟨h.opened, ?_, ?_, ?_, hnudged, ⟨stage, (htasks t).trans ht, hruns, hholds⟩,
    (htasks x.responder).trans h.responder, haccount⟩
  · rw [hbus, h.bus, Bus.run_append]
    rfl
  · rw [hbus, Bus.connected_dispatch]
    exact h.connected
  · obtain ⟨d, hd, htask⟩ := h.dispatcher
    exact ⟨d, hdispatcher.trans hd, (htasks d).trans htask⟩

theorem Inv.heard_dispatch (h : Inv t x) : x.opened.handed (x.acts ++ [.dispatch]) =
    x.opened.handed x.acts ++ x.world.bus.handsOut .dispatch := by
  rw [Bus.handed_append, ← h.bus]
  exact congrArg _ (List.append_nil _)

/-- Nothing is queued, and the dispatcher waits. -/
theorem Inv.dispatcher_waits (h : Inv t x) {d : TaskId} {rest : List TaskId}
    (hready : x.world.ready = d :: rest) (hd : x.world.dispatcher = some d)
    (hstep : x.world.step program = Schedule.dispatchTurn { x.world with ready := rest } d)
    (hq : x.world.bus.backend.queue = []) : Inv t (x.turn [.dispatch]) := by
  let popped : World := { x.world with ready := rest }
  obtain ⟨inbox, taken, haccount⟩ := h.account
  rw [turn, hstep, Schedule.dispatchTurn_of_rest (s := popped) hq]
  refine h.dispatched (Bus.dispatch_of_rest (.inr hq)).symm (fun _ => rfl) rfl
    (fun _ _ hne => absurd hq hne) ⟨inbox, taken, ?_, haccount.answered, haccount.unsealed, ?_⟩
  · rw [h.heard_dispatch, Bus.handsOut_of_rest (.inr hq), List.append_nil]
    exact haccount.tracks
  · intro hne
    have hdue := mem_rest hready (h.responder_ne_dispatcher hd) (haccount.due hne)
    exact hdue

/-- The dispatcher hands an event out, and rouses the completing task if that is a request. -/
theorem Inv.dispatcher_hands_out (h : Inv t x) {d : TaskId} {rest : List TaskId}
    {e : Event Message} {es : List (Event Message)} (hready : x.world.ready = d :: rest)
    (hd : x.world.dispatcher = some d)
    (hstep : x.world.step program = Schedule.dispatchTurn { x.world with ready := rest } d)
    (hq : x.world.bus.backend.queue = e :: es) : Inv t (x.turn [.dispatch]) := by
  let popped : World := { x.world with ready := rest }
  obtain ⟨inbox, taken, haccount⟩ := h.account
  obtain ⟨hroused, hagain, hmail⟩ := Schedule.dispatchTurn_spec (s := popped) hq d
  rw [turn, hstep]
  generalize popped.dispatchTurn d = w at hroused hagain hmail
  refine h.dispatched hroused.bus hroused.task? hroused.dispatcher ?_
    ⟨inbox ++ if e.channel == Channel.completionRequest then [.event e] else [], taken, ?_, ?_, ?_,
      ?_⟩
  · intro d' hd' _
    obtain rfl : d = d' := Option.some.inj (hd.symm.trans (hroused.dispatcher.symm.trans hd'))
    exact hagain
  · rw [h.heard_dispatch, Bus.handsOut_cons h.connected hq]
    change w.bus.Tracks _ _ _ _ _
    rw [hroused.bus]
    exact haccount.tracks.dispatch h.agrees h.connected hq
  · change List.Forall₂ (Answers w.shared.registry) _ _
    rw [hroused.same]
    exact haccount.answered
  · intro hmem
    rcases List.mem_append.1 hmem with hmem | hmem
    · exact haccount.unsealed hmem
    · split at hmem
      · cases List.mem_singleton.1 hmem
      · cases hmem
  · intro hne
    change x.responder ∈ w.ready
    by_cases he : e.channel = Channel.completionRequest
    · refine hmail x.listener (he ▸ h.mem_recipients) _ (Schedule.task?_eq_some h.responder).1 ?_
      simp [Schedule.heeds, Standing.awaits, Activity.awaits, Activity.holds]
    · rw [if_neg (by simpa using he), List.append_nil] at hne
      refine hroused.kept _ ?_
      exact mem_rest hready (h.responder_ne_dispatcher hd) (haccount.due hne)

/-- **A turn of the dispatcher.** -/
theorem Inv.dispatcher_turn (h : Inv t x) {d : TaskId} {rest : List TaskId}
    (hready : x.world.ready = d :: rest) (hd : x.world.dispatcher = some d) :
    Inv t (x.turn [.dispatch]) := by
  obtain ⟨d', hd', htask⟩ := h.dispatcher
  obtain rfl : d = d' := Option.some.inj (hd.symm.trans hd')
  have hstep := Schedule.step_dispatcher (p := program) hready htask
  cases hq : x.world.bus.backend.queue with
  | nil => exact h.dispatcher_waits hready hd hstep hq
  | cons e es => exact h.dispatcher_hands_out hready hd hstep hq

/-! ## Runs -/

/-- A start that is not refused leaves a dispatcher, which is due if something is queued. -/
theorem dispatcher_of_connect {w w' : World} (hw : w.Numbered) (h : Schedule.connect w = .ok w') :
    let listening := w'.listen Channel.completionRequest
    let spawned := listening.spawn (.responder w'.nextSubscription)
    listening.nextTask = w.nextTask + 1 ∧ spawned.dispatcher = some w.nextTask ∧
      spawned.task? w.nextTask = some { id := w.nextTask, role := .dispatcher } ∧
      spawned.Nudged := by
  intro listening spawned
  obtain rfl := Schedule.connect_spec h
  let connected : World := { w.spawnRole .dispatcher with
    bus := { w.bus with connected := true }, dispatcher := some w.nextTask }
  have hroused : Schedule.Roused { connected with
      bus := connected.bus.subscribe (.channel Channel.completionRequest) } listening :=
    Schedule.roused_nudge _
  refine ⟨hroused.nextTask, hroused.dispatcher, ?_, ?_⟩
  · refine Schedule.task?_spawnRole_of_some ((hroused.task? _).trans ?_) _
    exact Schedule.task?_spawnRole hw _
  · intro d hd hq
    exact List.mem_append_left _ (Schedule.nudged_nudge _ d hd hq)

/-- The turn that starts a session: the dispatcher and the completing task are there, and the latter
listens. -/
theorem inv_start {w : World} {rest : List TaskId} (hb : w.bus.Agrees) (hw : Manned w)
    (hready : w.ready = t :: rest) (ht : Stands w t (.session (.unstarted .session)))
    (hc : w.bus.connected = false) : Inv t (start w) := by
  let popped : World := { w with ready := rest }
  obtain ⟨w', hconnect⟩ : ∃ w', Schedule.connect popped = .ok w' := by
    simp only [Schedule.connect, Bus.connect, popped, hc, Bool.not_true, Bool.false_eq_true,
      if_false]
    exact ⟨_, rfl⟩
  have hmanned : Manned popped := ⟨hw.connected, hw.numbered, hw.role⟩
  have hstarted := Life.started_of_connect hmanned hconnect
  have hspawned := dispatcher_of_connect hmanned.numbered hconnect
  have hturn : (Stage.unstarted .session).turn popped =
      ((w'.listen Channel.completionRequest).spawn (.responder w'.nextSubscription),
        .asking false (.input (.session (w'.listen Channel.completionRequest).nextTask))) := by
    simp only [Stage.turn, Stage.start, Stage.startSession, hconnect]
    rfl
  have hgoes := goesOnAt_session hready ht
  simp only at hgoes
  rw [hturn] at hgoes
  simp only at hstarted hspawned
  generalize (w'.listen Channel.completionRequest).spawn (.responder w'.nextSubscription) = spawned
    at hstarted hspawned hgoes
  generalize (w'.listen Channel.completionRequest).nextTask = r at hstarted hspawned hgoes
  rw [hstarted.subscription] at hstarted
  obtain ⟨rfl, hdispatcher, hrole, hnudged⟩ := hspawned
  let stage : Stage := .asking false (.input (.session (w.nextTask + 1)))
  have hbus := hgoes.bus.trans hstarted.bus
  have hagrees : (Bus.Agrees { w.bus with connected := true }) := hb.congr rfl rfl rfl fun _ => rfl
  have hlt : t < w.nextTask := hw.numbered _ (Schedule.task?_eq_some ht).1
  have hother : ∀ i, w.nextTask ≤ i → (w.step program).task? i = spawned.task? i := by
    intro i hi
    rw [hgoes.task?]
    exact Schedule.task?_place_of_ne spawned (Nat.ne_of_gt (Nat.lt_of_lt_of_le hlt hi)) _
  refine ⟨?_, rfl, ?_, ⟨w.nextTask, hgoes.dispatcher.trans hdispatcher, ?_⟩,
    hgoes.dues.nudged hnudged, ⟨stage, ?_, rfl, List.not_mem_nil⟩, ?_,
    ⟨[], [], ?_, .nil, List.not_mem_nil, fun hne => absurd rfl hne⟩⟩
  · change (w.step program).bus.Agrees
    rw [hbus]
    exact hagrees.subscribe _
  · change (w.step program).bus.connected = true
    rw [hbus]
    rfl
  · exact (hother _ (Nat.le_refl _)).trans hrole
  · exact (hgoes.task? t).trans (stands_place (hstarted.tasks t _ ht) rfl _)
  · exact (hother _ (Nat.le_succ _)).trans hstarted.responder
  · change (w.step program).bus.Tracks _ _ _ _ []
    rw [hbus]
    exact hagrees.tracks_subscribe _

theorem Inv.step (h : Inv t x) (hs : Step t x y) : Inv t y := by
  cases hs with
  | session hready ht hloop hb ha => exact h.session_turn hready ht hloop hb ha
  | responder hready hb ha => exact h.responder_turn hready hb ha
  | dispatcher hready hd => exact h.dispatcher_turn hready hd
  | others hw => exact h.others hw

theorem inv_of_reached (h : Reached t x) : Inv t x := by
  induction h with
  | start hb hw hready ht hc =>
    obtain ⟨acts, hacts⟩ := hb
    exact inv_start (hacts ▸ Bus.agrees_run acts) hw hready ht hc
  | step _ hs ih => exact ih.step hs

/-! ## What counts as a step -/

/-- The completing task does not come to its end, since nobody closes the bus. -/
theorem Inv.responder_goes_on (h : Inv t x) (w : World) (hw : w.bus = x.world.bus) :
    (responderTurn x.listener w).2 = .wait (.responder x.listener) ∨
      (responderTurn x.listener w).2 = .again (.responder x.listener) := by
  obtain ⟨inbox, taken, haccount⟩ := h.account
  unfold responderTurn
  split
  · exact .inl rfl
  · next hclosed =>
    obtain ⟨rest, rfl⟩ := haccount.tracks.of_closed (hw ▸ hclosed)
    exact absurd List.mem_cons_self haccount.unsealed
  · exact .inr rfl

/-- Every turn of the session's task, of the completing task and of the dispatcher is a step, unless
the session has come to its end. -/
theorem exists_turn (h : Reached t x) {i : TaskId} {rest : List TaskId}
    (hready : x.world.ready = i :: rest)
    (hi : i = t ∨ i = x.responder ∨ x.world.dispatcher = some i) :
    (∃ y, Step t x y ∧ y.world = x.world.step program) ∨
      ∃ stage, Stands x.world t (.session stage) ∧
        (stage.turn { x.world with ready := rest }).2.isClosing = true := by
  have hinv := inv_of_reached h
  let popped : World := { x.world with ready := rest }
  rcases hi with rfl | rfl | hd
  · obtain ⟨stage, ht, hruns, -⟩ := hinv.session
    rcases Stage.goes_turn hruns popped with ⟨hloop, -⟩ | ⟨w, -, hled⟩
    · obtain ⟨acts, hacts, hnone⟩ := stage.acts_turn popped
      have hbus := (goesOnAt_session hready ht).bus
      refine .inl ⟨_, .session hready ht hloop (hbus.trans hacts) ?_, rfl⟩
      exact fun hmem => hnone _ hmem rfl
    · refine .inr ⟨stage, ht, ?_⟩
      rw [show stage.turn { x.world with ready := rest } = _ from hled]
      exact Stage.isClosing_endSession _ _ _
  · have hprogress := hinv.responder_goes_on popped rfl
    obtain ⟨acts, hacts, hnone⟩ := (deeds_responderTurn (p := fun _ => True) (fun _ => trivial)
      x.listener popped).acts
    have hbus := (goesOnAt_responder hready hinv.responder hprogress).bus
    refine .inl ⟨_, .responder hready (hbus.trans hacts) ?_, rfl⟩
    exact fun hmem => hnone _ hmem rfl
  · exact .inl ⟨_, .dispatcher hready hd, rfl⟩

/-- Others may send messages, -/
theorem others_send (t : TaskId) (x : Service) (o : Outgoing) :
    Others t x [.publish ⟨o.channel, x.world.stamp o⟩] (x.world.send o) := by
  have hsend := roused_send x.world o
  refine ⟨hsend.bus, ?_, congrArg (·.shared.registry) hsend.same, hsend.dispatcher, .of_nudge,
    fun i _ => hsend.task? i⟩
  intro a ha
  rw [List.mem_singleton.1 ha]
  exact ⟨⟨nofun, nofun⟩, nofun, nofun, nofun⟩

/-- and they may do on the bus what they like with subscriptions of their own. -/
theorem exists_others (h : Reached t x) {held held' : List SubscriptionId} {w : World}
    (hheld : x.listener ∉ held) (hw : Handles held x.world held' w) (hdues : Dues x.world w)
    (hregistry : w.shared.registry = x.world.shared.registry) : ∃ acts, Others t x acts w := by
  have hinv := inv_of_reached h
  obtain ⟨inbox, taken, haccount⟩ := hinv.account
  have hold : x.listener < x.world.bus.nextId := hinv.agrees.old _ haccount.tracks.mem_roster
  obtain ⟨acts, hbus, hacts⟩ := hw.bus.avoids hinv.agrees
  refine ⟨acts, hbus, ?_, hregistry, hw.dispatcher, hdues, fun i _ => hw.task? i⟩
  intro a ha
  obtain ⟨hprivate, havoids⟩ := hacts a ha
  refine ⟨hprivate.silent, ?_, havoids _ hold hheld⟩
  rintro rfl
  exact hprivate

/-! ## Answers -/

/-- What has been requested has been read, lies in the mailbox, or has yet to be handed out. -/
theorem Account.requests_eq (h : Inv t x) {inbox : List (Delivery Message)}
    {taken : List (Event Message)} (haccount : Account x inbox taken) :
    x.requests = taken ++
      (Delivery.events inbox ++ Event.on Channel.completionRequest x.world.bus.backlog) := by
  rw [requests, Event.on_append, h.opened.backlog_run, ← h.bus, ← haccount.tracks.account,
    List.append_assoc]

/-- When no task is due, nothing of it has yet to be handed out. -/
theorem Inv.on_backlog_at_rest (h : Inv t x) (hrest : x.world.ready = []) :
    Event.on Channel.completionRequest x.world.bus.backlog = [] := by
  obtain ⟨inbox, taken, haccount⟩ := h.account
  obtain ⟨d, hd, -⟩ := h.dispatcher
  have hqueue : x.world.bus.backend.queue = [] := by
    by_contra hne
    have hdue := h.nudged d hd hne
    rw [hrest] at hdue
    exact List.not_mem_nil hdue
  have hhears := h.agrees.hears_of_mem haccount.tracks.mem_roster
    (beq_self_eq_true Channel.completionRequest)
  rw [Bus.backlog, hqueue, List.nil_append, Event.on, List.filter_eq_nil_iff]
  intro e he hchannel
  have hheld := h.agrees.held e he
  rw [eq_of_beq hchannel, hhears] at hheld
  cases hheld

/-- **Every request for completions is answered once**, in the order of the requests, on its own
reply channel, with the completions of its text, and nothing else is published by the completing
task: at every moment of a session the first of the requests have been answered, and all of them
when no task is due. -/
theorem answers_requests (h : Reached t x) :
    (∃ answered, answered <+: x.requests ∧
      List.Forall₂ (Answers x.world.shared.registry) answered x.replies) ∧
    (x.world.ready = [] →
      List.Forall₂ (Answers x.world.shared.registry) x.requests x.replies) := by
  have hinv := inv_of_reached h
  obtain ⟨inbox, taken, haccount⟩ := hinv.account
  have hrequests := haccount.requests_eq hinv
  refine ⟨⟨taken, ⟨_, hrequests.symm⟩, haccount.answered⟩, ?_⟩
  intro hrest
  have hinbox : inbox = [] := by
    by_contra hne
    have hdue := haccount.due hne
    rw [hrest] at hdue
    exact List.not_mem_nil hdue
  rw [hinv.on_backlog_at_rest hrest, hinbox] at hrequests
  rw [hrequests]
  simpa [Delivery.events] using haccount.answered

/-! ## A session in which a line is completed -/

theorem Reached.dispatcherTurn (h : Reached t x)
    (hready : x.world.ready.head? = x.world.dispatcher) (hne : x.world.ready ≠ []) :
    Reached t (x.turn [.dispatch]) := by
  obtain ⟨d, rest, hrest⟩ := List.exists_cons_of_ne_nil hne
  rw [hrest] at hready
  exact h.step (.dispatcher hrest hready.symm)

theorem Reached.responderTurn (h : Reached t x) (acts : List (Bus.Act Message))
    (hready : x.world.ready.head? = some x.responder)
    (hb : (x.world.step program).bus = x.world.bus.run acts) (ha : .dispatch ∉ acts) :
    Reached t (x.replying acts) := by
  obtain ⟨rest, hrest⟩ := List.head?_eq_some_iff.1 hready
  exact h.step (.responder hrest hb ha)

/-- A session with the built-in commands is about to start. -/
def unstarted : World :=
  let w : World := { shared := { registry := .ofCommands Command.builtins } }
  w.spawn (.session (.unstarted .session))

/-- It has asked for a line. -/
def asked : Service :=
  let request := (start unstarted).world.stamp (.lineRequest false)
  (start unstarted).turn
    [.publish ⟨request.channel, request⟩, .subscribe (.channel request.replyChannel)]

theorem reached_asked : Reached 0 asked := by
  have hmanned : Manned unstarted := by
    refine ⟨rfl, ?_, fun d a c hd => by cases hd⟩
    intro i hi
    rw [List.mem_singleton.1 hi]
    exact Nat.zero_lt_one
  have hstart : Reached 0 (start unstarted) := .start ⟨[], rfl⟩ hmanned rfl rfl rfl
  have hstands : Stands (start unstarted).world 0
      (.session (.asking false (.input (.session 2)))) := rfl
  exact hstart.step (.session rfl hstands rfl rfl (by simp))

/-- No task is due any more. -/
def resting : Service := (asked.turn [.dispatch]).replying []

def help : Outgoing :=
  { data := .text "/he", channel := Channel.completionRequest, source := .client }

/-- Somebody asks how a line goes on. -/
def requested : Service :=
  { resting with
    world := resting.world.send help
    acts := resting.acts ++ [.publish ⟨help.channel, resting.world.stamp help⟩] }

theorem reached_requested : Reached 0 requested := by
  have hresting : Reached 0 resting :=
    (reached_asked.dispatcherTurn rfl (by decide)).responderTurn [] rfl rfl List.not_mem_nil
  exact hresting.step (.others (others_send 0 _ _))

/-- The reply has been published, and no task is due. -/
def answered : Service :=
  let x := (requested.turn [.dispatch]).turn [.dispatch]
  let reply := completionReply x.world.shared.registry (resting.world.stamp help)
  (x.replying [.read 0, .publish ⟨reply.channel, x.world.stamp reply⟩]).replying []

theorem reached_answered : Reached 0 answered := by
  have hdispatched : Reached 0 ((requested.turn [.dispatch]).turn [.dispatch]) :=
    (reached_requested.dispatcherTurn rfl (by decide +kernel)).dispatcherTurn rfl (by decide +kernel)
  exact (hdispatched.responderTurn _ rfl rfl (by simp)).responderTurn [] rfl rfl List.not_mem_nil

theorem answers_requests_help : ∃ x, Reached 0 x ∧ x.world.ready = [] ∧ x.requests.length = 1 ∧
    List.Forall₂ (Answers x.world.shared.registry) x.requests x.replies ∧
    x.replies.map (Words.Completion.listOfValue? ·.payload.data) =
      [some [{ text := "help", display := "help", position := -2 }]] := by
  refine ⟨answered, reached_answered, rfl, rfl, (answers_requests reached_answered).2 rfl, ?_⟩
  decide +kernel

end Service
end Parley
