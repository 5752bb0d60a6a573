import Parley.Proofs.Session.Farewell

/-!
# How a session ends

What follows for a session from the phases of its life. While it waits for the queue in its final
stop, the bus is connected unless others took the dispatcher off it; with the bus connected the wait
is for the queued events alone, and without it there is no end to it (`Life.stop_unblocked`,
`Life.stop_blocked`). And whatever commands and engine do, the session ends in good order: every
failure is reported by one message and the loop goes on, and a session that was not refused at the
start announces its end once, to everyone who listens for it, and leaves nothing of its own behind
(`Life.ends_in_order`). Both are said of what is published, not of the stage the session goes to.
-/

set_option autoImplicit false

namespace Parley

open Exchange (Stands)

/-! ## Waiting for the queue -/

namespace Bus

variable {α : Type} {b : Bus α}

/-- Handing out as many events as are queued empties the queue of a connected bus. -/
theorem Counted.idle_run (h : b.Counted) (hc : b.connected = true) :
    (b.run (List.replicate b.backend.queue.length .dispatch)).isIdle = true := by
  -- every turn takes one event off the queue and one off the count
  generalize hn : b.backend.queue.length = n
  induction n generalizing b with
  | zero =>
    rw [Counted, hn] at h
    simpa [isIdle, Backend.isIdle] using h
  | succ n ih =>
    obtain ⟨e, rest, hq⟩ := List.exists_cons_of_length_eq_add_one hn
    have hdispatched := dispatch_cons hc hq
    refine ih (h.act .dispatch) ?_ ?_
    · rw [Bus.act, hdispatched]
      exact hc
    · rw [Bus.act, hdispatched]
      rw [hq, List.length_cons] at hn
      exact Nat.succ.inj hn

/-- A bus that is not connected hands nothing out. -/
theorem run_dispatch_of_not_connected (hc : b.connected = false) (n : Nat) :
    b.run (List.replicate n .dispatch) = b := by
  induction n with
  | zero => rfl
  | succ n ih =>
    rw [List.replicate_succ, run_cons, act, dispatch_of_rest (.inl hc)]
    exact ih

/-- **When a wait for the queue can end**: the dispatcher comes to its end with the queue exactly if
the bus is connected or nothing is queued. -/
theorem Counted.idle_iff (h : b.Counted) :
    (∃ n, (b.run (List.replicate n .dispatch)).isIdle = true) ↔
      b.connected = true ∨ b.isIdle = true := by
  constructor
  · rintro ⟨n, hn⟩
    cases hc : b.connected with
    | true => exact .inl rfl
    | false =>
      rw [run_dispatch_of_not_connected hc] at hn
      exact .inr hn
  · rintro (hc | hidle)
    · exact ⟨_, h.idle_run hc⟩
    · exact ⟨0, hidle⟩

end Bus

/-- How the session will turn out, once its loop has ended. -/
def Stage.outcome? : Stage → Option (Except Error Unit)
  | dismissing _ outcome | flushing outcome | disconnecting _ outcome => some outcome
  | _ => none

namespace Visit

/-- The turn is to start the session, and the bus refuses. -/
def Refused (v : Visit) (e : BusError) : Prop :=
  v.stage = .unstarted .session ∧ v.world.connect = .error e

theorem Refused.led {v : Visit} {e : BusError} (h : v.Refused e) :
    v.led = (v.world, .done (.error (.bus e))) := by
  obtain ⟨stage, w⟩ := v
  obtain ⟨rfl, hconnect⟩ := h
  have hw : Schedule.connect w = .error e := hconnect
  simp only [Visit.led, Stage.turn, Stage.start, Stage.startSession, hw]
  rfl

/-- The report of a failure. -/
def report (e : Error) : Outgoing :=
  { channel := "default"
    source := .server
    data := .text e.message
    extra := [("style", .text "error")] }

/-- The turn finds that a command or the engine has failed, with an error; `w` is the world then. -/
inductive Fails : Visit → World → Error → Prop
  | command {w : World} {e : Error} {caller : CommandCaller} :
    Fails ⟨.commanding (.fail e) caller, w⟩ w e
  | response {w w' : World} {e : Error} {prompt : String} {r : TaskId}
    (h : (Race.start (w.shared.engine.respond w.shared.settings prompt) w).1.poll
      (Race.start (w.shared.engine.respond w.shared.settings prompt) w).2 =
        (w', .ready (.ok (.error e)))) : Fails ⟨.prompting prompt r, w⟩ w' e
  | resumed {w w' : World} {e : Error} {race : Race Unit} {r : TaskId}
    (h : race.poll w = (w', .ready (.ok (.error e)))) : Fails ⟨.racing race r, w⟩ w' e

/-- A failure that does not end the session is reported, and the loop goes on. -/
theorem led_of_fails {v : Visit} {w : World} {e : Error} (h : v.Fails w e)
    (he : e.endsSession = false) {r : TaskId} (hr : v.stage.Runs r) :
    v.led = (w.send (.styled e.message .error), .asking false (.input (.session r))) := by
  have hraced : Stage.raced r (.ok (.error e)) w =
      (w.send (.styled e.message .error), .asking false (.input (.session r))) := by
    simp only [Stage.raced, he, Bool.false_eq_true, if_false]
    rfl
  cases h with
  | @command w e caller =>
    obtain rfl : caller = .inputLoop (.session r) := hr
    simp only [led, Stage.turn, Stage.command, Stage.commandDone, he, Bool.false_eq_true, if_false]
  | @response w w' e prompt responder h =>
    obtain rfl : responder = r := hr
    simp only [led, Stage.turn, Stage.engage]
    rw [h]
    exact hraced
  | @resumed w w' e race responder h =>
    obtain rfl : responder = r := hr
    simp only [led, Stage.turn]
    rw [h]
    exact hraced

end Visit

namespace Life

variable {t : TaskId} {x : Life}

/-- **The final stop** waits for queued events only while the bus is connected, and then the
dispatcher comes to the end of them; unless others took the dispatcher off the bus. -/
theorem stop_unblocked (h : Reached t x) {outcome : Except Error Unit}
    (hs : Stands x.world t (.session (.flushing outcome))) :
    (x.world.bus.connected = true ∨ .detach ∈ x.outside) ∧
      ((∃ n, (x.world.bus.run (List.replicate n .dispatch)).isIdle = true) ↔
        x.world.bus.connected = true ∨ x.world.isIdle = true) := by
  have hinv := inv_of_reached h
  obtain ⟨stage, ht, hphase⟩ := hinv.stage
  cases hs.symm.trans ht
  refine ⟨?_, hinv.counted.idle_iff⟩
  cases hphase with
  | attending attends =>
    rcases attends with hruns | hdismissing
    · exact hruns.elim
    · cases hdismissing
  | flushing owned unsealed linked announced => exact linked

/-! ## A session that is stopped from outside -/

/-- The session's task takes its turn, from the given stage. -/
def visit (x : Life) (stage : Stage) : Life :=
  { x.turn with log := x.log ++ [⟨stage, { x.world with ready := x.world.ready.tail }⟩] }

theorem Reached.visit (h : Reached t x) {stage : Stage} (hready : x.world.ready.head? = some t)
    (ht : Stands x.world t (.session stage)) : Reached t (x.visit stage) := by
  obtain ⟨rest, hrest⟩ := List.head?_eq_some_iff.1 hready
  have hstep := Step.own hrest ht
  rw [show rest = x.world.ready.tail by rw [hrest]; rfl] at hstep
  exact h.step hstep

theorem Reached.responderTurn (h : Reached t x) (stage : Stage) (r : TaskId)
    (ht : Stands x.world t (.session stage)) (hr : stage.responder? = some r)
    (hready : x.world.ready.head? = some r) : Reached t x.turn := by
  obtain ⟨rest, hrest⟩ := List.head?_eq_some_iff.1 hready
  exact h.step (.responder hrest ht hr)

theorem Reached.dispatcherTurn (h : Reached t x) (d : TaskId) (cancelled : Bool)
    (hd : x.world.task? d = some ⟨d, .dispatcher, cancelled⟩)
    (hready : x.world.ready.head? = some d) : Reached t x.turn := by
  obtain ⟨rest, hrest⟩ := List.head?_eq_some_iff.1 hready
  exact h.step (.dispatcher hrest hd)

/-- A session is about to start, and somebody listens for its end. -/
def watched : Life :=
  let w : World := Schedule.listen { shared := {} } Channel.sessionExit
  { world := w.spawn (.session (.unstarted .session)), theirs := w.bus.ids }

theorem reached_watched : Reached 0 watched := by
  have hnone : watched.world.dispatcher = none := rfl
  refine .start ⟨[.subscribe (.channel Channel.sessionExit)], rfl⟩ ⟨rfl, ?_, fun d a c hd => ?_⟩ rfl
  · intro i hi
    rw [List.mem_singleton.1 hi]
    exact Nat.zero_lt_one
  · cases hnone.symm.trans hd

/-- The session has asked for a line. -/
def asked : Life := (watched.visit (.unstarted .session)).visit (.asking false (.input (.session 2)))

theorem reached_asked : Reached 0 asked :=
  (reached_watched.visit rfl rfl).visit rfl rfl

/-- Where it then stands. -/
def awaiting : Stage := .awaitingLine 2 (.input (.session 2))

/-- Others have stopped the stream of the session that waits for a line. -/
def stopped : Life := asked.others [.detach, .closeAll] asked.world.detach.closeAll

theorem reached_stopped : Reached 0 stopped := by
  have hstands : Stands asked.world 0 (.session awaiting) := rfl
  have hseated : Seated 0 asked.world := ⟨(inv_of_reached reached_asked).manned, _, hstands⟩
  refine reached_asked.step (.others hstands ⟨rfl, nofun, hseated.detach.closeAll.manned, ?_⟩)
  rintro i (rfl | hi)
  · rfl
  · cases hi
    rfl

/-- The dispatcher and the completing task have ended, and the session has found its end. -/
theorem reached_stop : Reached 0 (stopped.turn.turn.visit awaiting) := by
  have hdispatcher : Reached 0 stopped.turn := by
    exact reached_stopped.dispatcherTurn 1 true rfl rfl
  have hresponder : Reached 0 stopped.turn.turn := by
    exact hdispatcher.responderTurn awaiting 2 rfl rfl rfl
  exact hresponder.visit rfl rfl

theorem stop_unblocked_stopped :
    Stands (stopped.turn.turn.visit awaiting).world 0 (.session (.flushing (.ok ()))) ∧
      .detach ∈ (stopped.turn.turn.visit awaiting).outside := by
  have hstands : Stands (stopped.turn.turn.visit awaiting).world 0
      (.session (.flushing (.ok ()))) := rfl
  exact ⟨hstands, (stop_unblocked reached_stop hstands).1.resolve_left (by decide +kernel)⟩

/-- **A stop that never ends**: the announcement of the end is queued for a listener, there is no
dispatcher to hand it out, and no task is due or sleeps. -/
theorem stop_blocked : ∃ x, Reached 0 x ∧ Stands x.world 0 (.session (.flushing (.ok ()))) ∧
    x.world.bus.connected = false ∧ x.world.isIdle = false ∧ x.world.ready = [] ∧
    x.world.nextWake? = none :=
  ⟨_, reached_stop, rfl, by decide +kernel⟩

/-! ## A session that comes to its end -/

/-- The session has come to its end in order. It announced that once, by the turn `v` in the world
`w`: apart from what commands and the engine do, that turn published the announcement on the channel
for the end, and no other turn published anything there. Everyone who listened for it then, and still
does, was told in front of any mark of the end, unless others closed the bus; and the session has
disconnected the bus and left nothing of its own there. -/
structure InOrder (x : Life) (v : Visit) (w : World) : Prop where
  once : x.log.filter (·.announces) = [v]
  announced : v.led = Stage.announce (.ok ()) w
  exits : ∀ u ∈ x.log, ExitsWith (if u.announces then [exitEvent w] else []) u.served u.led.1
  told : .closeAll ∉ x.outside → ∀ p ∈ w.bus.roster, p.2.covers Channel.sessionExit = true →
    p ∈ x.world.bus.roster → Told (exitEvent w) (x.mailed p.1)
  disconnected : x.Unlinked
  left : ∀ i ∈ x.world.bus.ids, i ∈ x.theirs

theorem runs_of_fails (hx : Inv t x) {v : Visit} (hv : v ∈ x.log) {w : World} {e : Error}
    (h : v.Fails w e) : ∃ r, v.stage.Runs r := by
  rcases hx.visits v hv with hstage | ⟨r, hruns | hdismissing⟩ | hannounced | ⟨e, hdone⟩
  · cases h <;> cases hstage
  · exact ⟨r, hruns⟩
  · cases h <;> cases hdismissing
  · cases h <;> cases hannounced
  · cases h <;> cases hdone

theorem outcome_of_phase {stage : Stage} (h : Phase t x stage) {outcome : Except Error Unit}
    (ho : stage.outcome? = some outcome) : outcome = .ok () := by
  cases h with
  | unstarted => cases ho
  | refused => cases ho
  | done => cases ho
  | attending attends =>
    rcases attends with hruns | rfl
    · cases stage <;> first | exact hruns.elim | cases ho
    · cases ho
      rfl
  | flushing =>
    cases ho
    rfl
  | disconnecting =>
    cases ho
    rfl

/-- Each turn publishes the announcement or nothing on the channel for the end, if one turn made it. -/
theorem exits_of_once (hx : Inv t x) {v : Visit} {w : World}
    (honce : x.log.filter (·.announces) = [v]) (hv : v.led = Stage.announce (.ok ()) w) {u : Visit}
    (hu : u ∈ x.log) :
    ExitsWith (if u.announces then [exitEvent w] else []) u.served u.led.1 := by
  rcases Visit.exits (hx.visits u hu) with ⟨hquiet, hexits⟩ | ⟨w', hannounces, hled, hexits⟩
  · rwa [hquiet]
  · have huv : u ∈ [v] := honce ▸ List.mem_filter.2 ⟨hu, hannounces⟩
    obtain rfl := List.mem_singleton.1 huv
    have hevent : exitEvent w' = exitEvent w :=
      Stage.exitEvent_eq (congrArg Prod.fst (hled.symm.trans hv))
    rwa [hannounces, if_pos rfl, ← hevent]

theorem done_of_phase (hx : Inv t x) {result : Except Error Yield}
    (h : Phase t x (.done result)) :
    (∃ v ∈ x.log, ∃ e, v.Refused e ∧ result = .error (.bus e) ∧ ∀ u ∈ x.log, u.led.1 = u.world) ∨
      result = .ok .unit ∧ ∃ v w, x.InOrder v w := by
  cases h with
  | refused log connect still => exact .inl ⟨_, log, _, connect, rfl, still⟩
  | attending attends =>
    rcases attends with hruns | hdismissing
    · exact hruns.elim
    · cases hdismissing
  | @done v w owned unlinked announced =>
    refine .inr ⟨rfl, v, w, announced.log, announced.next,
      fun u hu => exits_of_once hx announced.log announced.next hu,
      fun hopen p hp hcovers hp' => ?_, unlinked, fun i hi => ?_⟩
    · exact (announced.told hopen p hp hcovers hp').resolve_right List.not_mem_nil
    · exact (owned i hi).resolve_right List.not_mem_nil

/-- **A session ends in order.** Every failure of a command or the engine that is no wish to leave is
reported by one message, and the loop goes on. The loop never ends with an error. A start that is
refused comes to nothing but the error; every other session that has come to its end has left
everything in order. -/
theorem ends_in_order (h : Reached t x) {stage : Stage} (hs : Stands x.world t (.session stage)) :
    (∀ v ∈ x.log, ∀ w e, v.Fails w e → e.endsSession = false →
      (∃ r, v.led = (w.send (.styled e.message .error), .asking false (.input (.session r)))) ∧
        Sends [(Visit.report e).sentIn w] w v.led.1) ∧
    (∀ outcome, stage.outcome? = some outcome → outcome = .ok ()) ∧
    (∀ v ∈ x.log, ∀ e, v.Refused e → v.led = (v.world, .done (.error (.bus e)))) ∧
    ∀ result, stage = .done result →
      (∃ v ∈ x.log, ∃ e, v.Refused e ∧ result = .error (.bus e) ∧
        ∀ u ∈ x.log, u.led.1 = u.world) ∨
      result = .ok .unit ∧ ∃ v w, x.InOrder v w := by
  have hinv := inv_of_reached h
  obtain ⟨stage', ht, hphase⟩ := hinv.stage
  cases hs.symm.trans ht
  refine ⟨fun v hv w e hfails he => ?_, fun outcome ho => outcome_of_phase hphase ho,
    fun v _ e hrefused => hrefused.led, ?_⟩
  · obtain ⟨r, hruns⟩ := runs_of_fails hinv hv hfails
    have hled := Visit.led_of_fails hfails he hruns
    refine ⟨⟨r, hled⟩, ?_⟩
    rw [hled]
    exact .send w (Visit.report e)
  · rintro result rfl
    exact done_of_phase hinv hphase

/-- Somebody has answered the session's request with an exit word. -/
def dismissed : Life :=
  let request := (watched.visit (.unstarted .session)).world.stamp (.lineRequest false)
  let quit : Outgoing := ({ data := .text "q" } : Outgoing).replyTo request
  asked.others [.publish ⟨quit.channel, asked.world.stamp quit⟩] (asked.world.send quit)

theorem reached_dismissed : Reached 0 dismissed := by
  have hstands : Stands asked.world 0 (.session awaiting) := rfl
  have hmanned := (inv_of_reached reached_asked).manned
  refine reached_asked.step (.others hstands ⟨rfl, nofun, hmanned.handles (handles_send [] _ _), ?_⟩)
  rintro i (rfl | hi)
  · rfl
  · cases hi
    rfl

/-- The session has read the exit word and announced its end. -/
def announced : Life :=
  (dismissed.turn.turn.turn.visit awaiting).turn.visit (.dismissing 2 (.ok ()))

theorem reached_announced : Reached 0 announced := by
  have hdispatched : Reached 0 dismissed.turn.turn :=
    (reached_dismissed.dispatcherTurn 1 false rfl rfl).dispatcherTurn 1 false rfl rfl
  have hread : Reached 0 (dismissed.turn.turn.turn.visit awaiting) :=
    (hdispatched.responderTurn awaiting 2 rfl rfl rfl).visit rfl rfl
  exact (hread.responderTurn (.dismissing 2 (.ok ())) 2 rfl rfl rfl).visit rfl rfl

/-- The session has come to its end. -/
def ended : Life :=
  (announced.turn.turn.visit (.flushing (.ok ()))).turn.visit (.disconnecting 1 (.ok ()))

theorem reached_ended : Reached 0 ended := by
  have hflushed : Reached 0 (announced.turn.turn.visit (.flushing (.ok ()))) :=
    ((reached_announced.dispatcherTurn 1 false rfl rfl).dispatcherTurn 1 false rfl rfl).visit rfl rfl
  exact (hflushed.dispatcherTurn 1 true rfl rfl).visit rfl rfl

theorem ends_in_order_watched : ∃ x, Reached 0 x ∧
    Stands x.world 0 (.session (.done (.ok .unit))) ∧ (∃ v w, x.InOrder v w) ∧
    ∃ e, x.mailed 0 = [.event e, .closed] ∧ e.channel = Channel.sessionExit := by
  have hstands : Stands ended.world 0 (.session (.done (.ok .unit))) := rfl
  refine ⟨ended, reached_ended, hstands, ?_, _, rfl, rfl⟩
  obtain ⟨-, -, -, hdone⟩ := ends_in_order reached_ended hstands
  rcases hdone _ rfl with ⟨_, _, _, _, hrefused, _⟩ | ⟨-, hinOrder⟩
  · cases hrefused
  · exact hinOrder

end Life

end Parley
