import Parley.Proofs.Session.Commanding
import Parley.Proofs.Session.Race

/-!
# What reaches the engine

A session hands a prompt to its engine in one kind of turn, and then does what the engine does for
that prompt (`Visit.Engages`). Nothing else is asked of the engine: with one that answers this prompt
in the same way and all others in another, the turn goes the same way (`Stage.turn_answering`). Hence
the prompts that are read off a course of a session are those that its engine was given, and
`Course.dialogue` says which they are.
-/

set_option autoImplicit false

namespace Parley

/-! ## Another engine -/

/-- The world with an engine that answers prompts in this way. -/
def answering (respond : Settings → String → Response) (w : World) : World :=
  { w with shared := { w.shared with engine := { w.shared.engine with respond } } }

section
variable (respond : Settings → String → Response) (w : World)

theorem rouse_answering (id : TaskId) :
    (answering respond w).rouse id = answering respond (w.rouse id) := by
  unfold Schedule.rouse
  rw [show (answering respond w).ready = w.ready from rfl]
  split <;> rfl

theorem foldl_answering {γ : Type} {f : World → γ → World}
    (hf : ∀ w x, f (answering respond w) x = answering respond (f w x)) (xs : List γ) :
    xs.foldl f (answering respond w) = answering respond (xs.foldl f w) := by
  induction xs generalizing w with
  | nil => rfl
  | cons x xs ih => rw [List.foldl_cons, List.foldl_cons, hf, ih]

theorem signal_answering (s : Signal) :
    (answering respond w).signal s = answering respond (w.signal s) :=
  foldl_answering respond w (rouse_answering respond) _

theorem nudge_answering : (answering respond w).nudge = answering respond w.nudge := by
  unfold Schedule.nudge
  rw [show (answering respond w).dispatcher = w.dispatcher from rfl,
    show (answering respond w).bus = w.bus from rfl]
  split
  · split
    · rfl
    · exact rouse_answering respond w _
  · rfl

theorem send_answering (o : Outgoing) :
    (answering respond w).send o = answering respond (w.send o) :=
  nudge_answering respond
    { w with stamped := w.stamped + 1, bus := w.bus.publish ⟨o.channel, w.stamp o⟩ }

theorem listen_answering (channel : String) :
    (answering respond w).listen channel = answering respond (w.listen channel) :=
  nudge_answering respond { w with bus := w.bus.subscribe (.channel channel) }

theorem releaseAll_answering (ids : List SubscriptionId) :
    (answering respond w).releaseAll ids = answering respond (w.releaseAll ids) :=
  foldl_answering respond w (fun _ _ => rfl) ids

theorem abort_answering (task : TaskId) :
    (answering respond w).abort task = answering respond (w.abort task) := by
  unfold Schedule.abort
  rw [show (answering respond w).task? task = w.task? task from rfl]
  split
  · exact rouse_answering respond (w.markCancelled task) task
  · rfl

theorem closeAll_answering : (answering respond w).closeAll = answering respond w.closeAll :=
  foldl_answering respond { w with bus := w.bus.closeAll }
    (fun w id => signal_answering respond w (.mail id)) _

theorem detach_answering : (answering respond w).detach = answering respond w.detach := by
  unfold Schedule.detach
  rw [show (answering respond w).dispatcher = w.dispatcher from rfl]
  split
  · exact abort_answering respond { w with bus := w.bus.detach, dispatcher := none } _
  · rfl

theorem connect_answering :
    Schedule.connect (answering respond w) = (Schedule.connect w).map (answering respond) := by
  unfold Schedule.connect
  rw [show (answering respond w).bus = w.bus from rfl]
  split <;> rfl

end

/-! ## Work -/

section
variable {β : Type} (respond : Settings → String → Response)

theorem run_answering (job : Job β) (held : List SubscriptionId) (w : World) :
    job.run held (answering respond w) = (job.run held w).map (answering respond) id := by
  induction job generalizing held w with
  | finish r => exact Prod.ext (releaseAll_answering respond w held) rfl
  | fail e => exact Prod.ext (releaseAll_answering respond w held) rfl
  | send o next ih => rw [Job.run, Job.run, send_answering, ih]
  | record prompt next ih => exact ih held (remember prompt w)
  | sleep ms next ih =>
    rw [Job.run, Job.run]
    split
    · exact ih held w
    · rfl
  | receive channel next ih => exact Prod.ext (listen_answering respond w channel) rfl
  | listen channel next ih =>
    rw [Job.run, Job.run, listen_answering]
    exact ih _ _
  | await number next ih =>
    rw [Job.run, Job.run]
    split
    · rfl
    · next id _ =>
      rw [show (answering respond w).peek id = w.peek id from rfl]
      split
      · exact ih _ held (w.taken id)
      · exact Prod.ext (releaseAll_answering respond (w.taken id) held) rfl
      · rfl
  | stall => rfl

theorem poll_answering (work : Working β) (w : World) :
    work.poll (answering respond w) = (work.poll w).map (answering respond) id := by
  cases work with
  | fresh job => exact run_answering respond job [] w
  | asleep held wake next =>
    rw [Working.poll, Working.poll, show (answering respond w).alarm = w.alarm from rfl]
    split
    · exact run_answering respond next held w
    · rfl
  | receiving held id next =>
    rw [Working.poll, Working.poll, show (answering respond w).peek id = w.peek id from rfl]
    split
    · exact run_answering respond _ held ((w.taken id).release id)
    · exact Prod.ext (releaseAll_answering respond ((w.taken id).release id) held) rfl
    · rfl
  | awaiting held number next => exact run_answering respond (.await number next) held w
  | stalled held => rfl

theorem alone_answering (work : Working β) (w : World) :
    Race.alone work (answering respond w) = (Race.alone work w).map (answering respond) id := by
  have hpoll := poll_answering respond work w
  unfold Race.alone
  rw [hpoll]
  obtain ⟨w₁, polled⟩ := work.poll w
  cases polled <;> rfl

theorem racePoll_answering (r : Race β) (w : World) :
    r.poll (answering respond w) = (r.poll w).map (answering respond) id := by
  have hpoll := poll_answering respond r.work w
  unfold Race.poll
  rw [hpoll]
  obtain ⟨w₁, polled⟩ := r.work.poll w
  cases polled with
  | ready result => exact Prod.ext (releaseAll_answering respond w₁ _) rfl
  | pending work =>
    cases hid : r.interrupts with
    | none => rfl
    | some listener =>
      simp only [Prod.map, id, show (answering respond w₁).peek listener = w₁.peek listener from rfl]
      cases w₁.peek listener with
      | waiting => rfl
      | event e =>
        refine Prod.ext ?_ rfl
        exact congrArg (·.release listener)
          (releaseAll_answering respond (w₁.taken listener) work.holds)
      | closed => exact alone_answering respond work ((w₁.taken listener).release listener)

end

/-! ## Turns -/

namespace Stage

section
variable (respond : Settings → String → Response)

theorem closed_answering (outcome : Except Error Unit) (w : World) :
    closed outcome (answering respond w) = (closed outcome w).map (answering respond) id :=
  Prod.ext (closeAll_answering respond w) rfl

theorem flush_answering (outcome : Except Error Unit) (w : World) :
    flush outcome (answering respond w) = (flush outcome w).map (answering respond) id := by
  unfold flush disconnect
  rw [show (answering respond w).isIdle = w.isIdle from rfl,
    show (answering respond w).dispatcher = w.dispatcher from rfl]
  split
  · split
    · exact Prod.ext (detach_answering respond w) rfl
    · exact closed_answering respond outcome w
  · rfl

theorem announce_answering (outcome : Except Error Unit) (w : World) :
    announce outcome (answering respond w) = (announce outcome w).map (answering respond) id := by
  unfold announce
  rw [send_answering, flush_answering]

theorem endSession_answering (responder : TaskId) (outcome : Except Error Unit) (w : World) :
    endSession responder outcome (answering respond w) =
      (endSession responder outcome w).map (answering respond) id := by
  unfold endSession
  rw [show (answering respond w).task? responder = w.task? responder from rfl]
  split
  · exact Prod.ext (abort_answering respond w responder) rfl
  · exact announce_answering respond outcome w

theorem race_answering (responder : TaskId)
    (p : World × Poll (Except Error (Except Error Unit)) (Race Unit)) :
    race responder (p.map (answering respond) id) =
      (race responder p).map (answering respond) id := by
  obtain ⟨w, polled⟩ := p
  cases polled with
  | pending r => rfl
  | ready result =>
    simp only [race, Prod.map, id]
    unfold raced
    split
    · rfl
    · split
      · exact endSession_answering respond responder _ w
      · exact Prod.ext (send_answering respond w _) rfl
    · exact Prod.ext (send_answering respond w _) rfl
    · exact endSession_answering respond responder _ w

theorem takePrompt_answering (taker : PromptTaker) (prompt : Except Error String) (w : World) :
    takePrompt taker prompt (answering respond w) =
      (takePrompt taker prompt w).map (answering respond) id := by
  unfold takePrompt
  split
  · rfl
  · split <;> rfl
  · exact endSession_answering respond _ _ w

theorem commandDone_answering (caller : CommandCaller) (result : Except Error Unit) (w : World) :
    commandDone caller result (answering respond w) =
      (commandDone caller result w).map (answering respond) id := by
  unfold commandDone
  split
  · rfl
  · rfl
  · split
    · exact takePrompt_answering respond _ _ w
    · exact Prod.ext (send_answering respond w _) rfl

theorem command_answering (caller : CommandCaller) (rest : Script) (w : World) :
    command caller rest (answering respond w) =
      (command caller rest w).map (answering respond) id := by
  cases rest with
  | finish => exact commandDone_answering respond caller _ w
  | fail e => exact commandDone_answering respond caller _ w
  | send o next => exact Prod.ext (send_answering respond w o) rfl
  | change setting value next =>
    simp only [command, show (answering respond w).shared.settings = w.shared.settings from rfl]
    split <;> rfl
  | _ => rfl

theorem useLine_answering (use : LineUse) (line : Except Error String) (w : World) :
    useLine use line (answering respond w) =
      (useLine use line w).map (answering respond) id := by
  unfold useLine
  split
  · exact takePrompt_answering respond _ _ w
  · split
    · rfl
    · exact takePrompt_answering respond _ _ w
  · exact commandDone_answering respond _ _ w
  · split
    · rfl
    · exact Prod.ext (send_answering respond w _) rfl
  · exact commandDone_answering respond _ _ w
  · rfl
  · rfl
  · split
    · rfl
    · exact Prod.ext (send_answering respond w _) rfl
  · rfl

theorem startSession_answering (w : World) :
    startSession (answering respond w) = (startSession w).map (answering respond) id := by
  unfold startSession
  rw [connect_answering]
  cases Schedule.connect w with
  | error e => rfl
  | ok w =>
    simp only [Except.map]
    rw [listen_answering]
    rfl

/-- **The engine is asked only for the prompt of the turn**: apart from that, it does not matter how it
answers prompts. -/
theorem turn_answering {stage : Stage} (hs : stage.InSession) (w : World)
    (hsame : ∀ prompt, stage.pending? = some prompt →
      respond w.shared.settings prompt = w.shared.engine.respond w.shared.settings prompt) :
    stage.turn (answering respond w) = (stage.turn w).map (answering respond) id := by
  cases stage with
  | unstarted target =>
    obtain rfl : target = .session := hs
    exact startSession_answering respond w
  | asking plain use =>
    simp only [turn, askLine]
    rw [send_answering, listen_answering]
    rfl
  | awaitingLine reply use =>
    simp only [turn]
    rw [show (answering respond w).peek reply = w.peek reply from rfl]
    split
    · rfl
    · exact useLine_answering respond use _ ((w.taken reply).release reply)
    · exact useLine_answering respond use _ ((w.taken reply).release reply)
  | commanding rest caller => exact command_answering respond caller rest w
  | prompting prompt responder =>
    simp only [turn, engage, Race.start]
    rw [listen_answering, racePoll_answering, race_answering,
      show (answering respond w).shared.engine.respond (answering respond w).shared.settings prompt =
        _ from hsame prompt rfl]
    rfl
  | responding work => exact hs.elim
  | racing r responder =>
    simp only [turn]
    rw [racePoll_answering, race_answering]
  | dismissing responder outcome =>
    simp only [turn]
    rw [show (answering respond w).task? responder = w.task? responder from rfl]
    split
    · rfl
    · exact announce_answering respond outcome w
  | flushing outcome => exact flush_answering respond outcome w
  | disconnecting task outcome =>
    simp only [turn]
    rw [show (answering respond w).task? task = w.task? task from rfl]
    split
    · rfl
    · exact closed_answering respond outcome w
  | done outcome => rfl

end

end Stage

/-! ## The engine at work -/

/-- The turn hands the prompt to the engine: it listens for an interrupt, and does what the engine
does for the prompt up to the first pause, or to the end. -/
inductive Visit.Engages (v : Visit) (prompt : String) (responder : TaskId) : Prop
  | pauses {w : World} {rest : Working Unit}
    (hrun : (v.world.shared.engine.respond v.world.shared.settings prompt).run []
      (v.world.listen "interrupt") = (w, .pending rest))
    (hled : v.led = (w, .racing ⟨rest, some v.world.nextSubscription⟩ responder))
  | returns {w : World} {result : Except Error Unit}
    (hrun : (v.world.shared.engine.respond v.world.shared.settings prompt).run []
      (v.world.listen "interrupt") = (w, .ready result))
    (hled : v.led = Stage.raced responder (.ok result) (w.release v.world.nextSubscription))

/-- A listener that is new has nothing to read, whatever the work has done. -/
theorem Race.peek_start {β : Type} {job : Job β} {w w' : World} (hw : w.bus.Agrees)
    {rest : Working β} (hrun : job.run [] (w.listen Channel.interrupt) = (w', .pending rest)) :
    w'.peek w.nextSubscription = .waiting := by
  have hsame := (Race.listens_start job hw).subscription?_work (w := (Race.start job w).2) hrun rfl
  have hnew : w'.bus.subscription? w.nextSubscription =
      some { id := w.nextSubscription, scope := .channel Channel.interrupt } := by
    rw [hsame, show (Race.start job w).2.bus = _ from Race.bus_listen w Channel.interrupt]
    exact hw.subscription?_subscribe _
  rw [Schedule.peek, Bus.read, hnew]
  rfl

theorem Stage.engages_prompting {w : World} (hw : w.bus.Agrees) (prompt : String)
    (responder : TaskId) : Visit.Engages ⟨.prompting prompt responder, w⟩ prompt responder := by
  cases hrun : (w.shared.engine.respond w.shared.settings prompt).run []
      (w.listen Channel.interrupt) with
  | mk w' polled =>
    cases polled with
    | ready result =>
      refine .returns hrun ?_
      simp only [Visit.led, turn, engage, Race.start, Race.poll, Working.poll, hrun, Race.won, race]
      rfl
    | pending rest =>
      refine .pauses hrun ?_
      simp only [Visit.led, turn, engage, Race.start, Race.poll, Working.poll, hrun,
        Race.peek_start hw hrun, race]

/-! ## The end -/

/-- A session that closes announces so at most, and leaves alone what the tasks share. -/
theorem Sends.closing {stage : Stage} (h : stage.isClosing = true) (w : World) :
    ∃ ms, (∀ m ∈ ms, m.channel = "session_exit") ∧ Sends ms w (stage.turn w).1 := by
  have hnothing : ∀ {w' : World}, Sends [] w w' →
      ∃ ms, (∀ m ∈ ms, m.channel = "session_exit") ∧ Sends ms w w' := fun hw => ⟨[], nofun, hw⟩
  cases stage with
  | dismissing responder outcome =>
    simp only [Stage.turn]
    split
    · exact hnothing .refl
    · exact Sends.announce outcome w
  | flushing outcome => exact hnothing (flush outcome w)
  | disconnecting task outcome =>
    simp only [Stage.turn]
    split
    · exact hnothing .refl
    · exact hnothing (closeAll w)
  | done outcome => exact hnothing .refl
  | _ => cases h

/-! ## Courses -/

/-- What a turn of a session has to do with its engine, and with its own requests. -/
structure Visit.Converses (v : Visit) : Prop where
  engages : ∀ prompt responder, v.stage = .prompting prompt responder → v.Engages prompt responder
  /-- The engine is asked for nothing but the prompt of the turn. -/
  asks : ∀ respond : Settings → String → Response,
    (∀ prompt, v.prompt? = some prompt → respond v.world.shared.settings prompt =
      v.world.shared.engine.respond v.world.shared.settings prompt) →
    v.stage.turn (answering respond v.world) = v.led.map (answering respond) id
  /-- Apart from what the engine publishes, the request of the turn is the only one. -/
  requests : ∃ es, Bus.Publishes es v.worked.bus v.led.1.bus ∧
    Event.on "input_request" es = v.request?.toList.map (⟨"input_request", ·⟩)
  /-- A session that closes announces so at most. -/
  closes : v.stage.isClosing = true →
    ∃ ms, (∀ m ∈ ms, m.channel = "session_exit") ∧ Sends ms v.world v.led.1

namespace Course

variable {log : List Visit} {stage : Stage} {w : World}

theorem converses_turn (h : Course log stage w) : Visit.Converses ⟨stage, w⟩ := by
  obtain ⟨acts, hacts⟩ := h.sound.bus
  have hagrees : w.bus.Agrees := hacts ▸ Bus.agrees_run acts
  refine ⟨fun prompt responder hs => ?_, fun respond hsame =>
    Stage.turn_answering respond h.sound.inSession w hsame, ?_, fun hs => Sends.closing hs w⟩
  · obtain rfl : stage = _ := hs
    exact Stage.engages_prompting hagrees prompt responder
  · obtain ⟨es, hes, hlines⟩ := Stage.says_turn h.sound.inSession h.chats w
    refine ⟨es, hes, (hlines Channel.inputRequest (.inl rfl)).trans ?_⟩
    refine List.filter_eq_self.2 fun e he => ?_
    obtain ⟨m, -, rfl⟩ := List.mem_map.1 he
    exact beq_self_eq_true _

theorem converses (h : Course log stage w) {v : Visit} (hv : v ∈ log) : v.Converses := by
  induction h with
  | start hb hr => exact absurd hv List.not_mem_nil
  | turn h ih =>
    rcases List.mem_append.1 hv with hv | hv
    · exact ih hv
    · exact List.mem_singleton.1 hv ▸ h.converses_turn
  | others h hw ih => exact ih hv

/-- **What reaches the engine.** In every course of a session with the built-in commands: the
prompts handed to the engine, together with one that is just about to be, are the prompts among the
answers (`Dialogue.prompts`); after an answer that is an exit word the session only closes; every
answer but the last request's has come, on the reply channel of its own request and in the order of
the requests; and a line is asked for only by the turn right after one that ends what the session
was doing, or, for a question, after the step of a command that asks it. A turn hands to the engine,
and publishes as a request, what is read off it and nothing else (`Visit.Converses`). -/
theorem dialogue (h : Course log stage w) :
    prompts log ++ stage.pending?.toList = Dialogue.prompts (answers log) ∧
    (∀ before v after a, log = before ++ v :: after → v.answer? = some a → a.isExit = true →
      stage.isClosing = true ∧ ∀ u ∈ after, u.stage.isClosing = true) ∧
    ((answers log).length ≤ (requests log).length ∧
      (requests log).length ≤ (answers log).length + 1 ∧
      ∀ p ∈ (requests log).zip (answers log), p.2.RepliesTo p.1) ∧
    (∀ before v v' after plain use, log = before ++ v :: v' :: after →
      v'.stage = .asking plain use → if plain then v.Questions else v.Concludes) ∧
    ∀ v ∈ log, v.Converses := by
  refine ⟨h.sound.heard, fun before v after a hlog => h.closing_after_exit hlog,
    ⟨h.counts.1, h.counts.2, h.sound.pairs⟩, fun before v v' after plain use hlog hs => ?_,
    fun v => h.converses⟩
  have hfollows := h.follows_of_split hlog
  rw [hs] at hfollows
  cases hfollows with
  | closing hn ha => cases hn
  | own hv ha => exact hv
  | question hu ho hv ha => exact hv

/-- A session that is given a blank line, a prompt and an exit word. -/
theorem dialogue_three_lines :
    ∃ log stage w, Course log stage w ∧ (answers log).map (·.line) = [" ", "hello", "quit"] ∧
      prompts log = ["hello"] ∧ w.shared.memory.prompts = ["hello"] ∧ stage.isClosing = true := by
  let w : World :=
    { shared := { engine := .recording, registry := .ofCommands Command.builtins } }
  let reply (text : String) (asking : Led) : Bus.Act Message :=
    let request := asking.1.stamp (.lineRequest false)
    let line : Outgoing := { data := .text text, source := .client }
    .publish ⟨request.replyChannel, asking.1.stamp (line.replyTo request)⟩
  let read (text : String) (asking : Led) : Led :=
    let asked := asking.2.turn asking.1
    asked.2.turn { asked.1 with bus := asked.1.bus.run [reply text asking, .dispatch] }
  let started := (Stage.unstarted .session).turn w
  let passed := read " " started
  let prompted := read "hello" passed
  let engaged := prompted.2.turn prompted.1
  have hstart : Course [] (.unstarted .session) w := .start ⟨[], rfl⟩ rfl
  have hstarted : Course _ started.2 started.1 := hstart.turn
  have hpassed : Course _ passed.2 passed.1 :=
    (hstarted.turn.acts [reply " " started, .dispatch]).turn
  have hengaged : Course _ engaged.2 engaged.1 :=
    (hpassed.turn.acts [reply "hello" passed, .dispatch]).turn.turn
  have h := (hengaged.turn.acts [reply "quit" engaged, .dispatch]).turn
  have hclosing : (read "quit" engaged).2.isClosing = true := by decide +kernel
  have hpending : (read "quit" engaged).2.pending? = none := by decide +kernel
  refine ⟨_, _, _, h, by decide +kernel, ?_, by decide +kernel, hclosing⟩
  have hprompts := h.dialogue.1.trans (show _ = ["hello"] by decide +kernel)
  rwa [show Stage.pending? _ = none from hpending, Option.toList_none, List.append_nil] at hprompts

end Course
end Parley
