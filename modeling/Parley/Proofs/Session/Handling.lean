import Parley.Proofs.Bus.Conduct
import Parley.Proofs.Schedule.Queue
import Parley.Session.Program

/-!
# What a session does with its subscriptions

`Handles held w held' w'`: a task that holds `held` acts on the bus and holds `held'` then; tasks and
dispatcher stay. Work, races and the loop of a session handle their subscriptions in this way. A race
fails in one way only, by an interrupt (`Race.poll_error`).

So a turn of the loop leads back into the loop, or it ends the loop without an error and with every
subscription given up (`Stage.goes_turn`).
-/

set_option autoImplicit false

namespace Parley

structure Handles (held : List SubscriptionId) (w : World) (held' : List SubscriptionId)
    (w' : World) : Prop where
  bus : Bus.Conduct held w.bus held' w'.bus
  tasks : w'.tasks = w.tasks
  nextTask : w'.nextTask = w.nextTask
  dispatcher : w'.dispatcher = w.dispatcher

namespace Handles

theorem rest {held : List SubscriptionId} {w : World} : Handles held w held w :=
  ⟨.rest, rfl, rfl, rfl⟩

theorem trans {held held' held'' : List SubscriptionId} {w w' w'' : World}
    (h : Handles held w held' w') (h' : Handles held' w' held'' w'') : Handles held w held'' w'' :=
  ⟨h.bus.trans h'.bus, h'.tasks.trans h.tasks, h'.nextTask.trans h.nextTask,
    h'.dispatcher.trans h.dispatcher⟩

/-- Rousing tasks is no matter of the bus. -/
theorem of_roused {held held' : List SubscriptionId} {w w' : World} {b : Bus Message}
    (hb : Bus.Conduct held w.bus held' b) (h : Schedule.Roused { w with bus := b } w') :
    Handles held w held' w' :=
  ⟨h.bus ▸ hb, h.tasks, h.nextTask, h.dispatcher⟩

theorem task? {held held' : List SubscriptionId} {w w' : World} (h : Handles held w held' w')
    (i : TaskId) : w'.task? i = w.task? i := by
  rw [Schedule.task?, h.tasks, Schedule.task?]

end Handles

section
variable (held : List SubscriptionId) (w : World)

theorem handles_send (o : Outgoing) : Handles held w held (w.send o) := by
  have hstamped : Handles held w held { w with stamped := w.stamped + 1 } := ⟨.rest, rfl, rfl, rfl⟩
  exact hstamped.trans (.of_roused (.publish .rest _) (Schedule.roused_nudge _))

theorem handles_remember (prompt : String) : Handles held w held (remember prompt w) :=
  ⟨.rest, rfl, rfl, rfl⟩

variable {held}

theorem handles_listen {held' : List SubscriptionId} (channel : String)
    (h : ∀ i, i ∈ held' ↔ i ∈ held ∨ i = w.nextSubscription) :
    Handles held w held' (w.listen channel) :=
  .of_roused (.subscribe .rest _ h) (Schedule.roused_nudge _)

theorem handles_taken {id : SubscriptionId} (h : id ∈ held) : Handles held w held (w.taken id) :=
  ⟨.read .rest h, rfl, rfl, rfl⟩

/-- A subscription that is given back is held no longer. -/
theorem handles_release (id : SubscriptionId) :
    Handles (id :: held) w held (w.release id) := by
  refine ⟨.drop .rest List.mem_cons_self (fun i hi => List.mem_cons_of_mem _ hi) fun i hi => ?_,
    rfl, rfl, rfl⟩
  exact List.mem_cons.1 hi

theorem handles_releaseAll (ids : List SubscriptionId) :
    Handles (ids ++ held) w held (w.releaseAll ids) := by
  induction ids generalizing w with
  | nil => exact .rest
  | cons id ids ih => exact (handles_release w id).trans (ih _)

/-- A listener whose next event has been taken, or whose end, is given back. -/
theorem handles_read (id : SubscriptionId) :
    Handles (id :: held) w held ((w.taken id).release id) :=
  (handles_taken w List.mem_cons_self).trans (handles_release _ id)

end

/-! ## Work -/

/-- What is held when something has been looked at. -/
def Poll.holds {α β : Type} (holds : β → List SubscriptionId) : Poll α β → List SubscriptionId
  | ready _ => []
  | pending rest => holds rest

section
variable {β : Type}

theorem handles_jobRun (job : Job β) (held extra : List SubscriptionId) (w : World) :
    Handles (held ++ extra) w ((job.run held w).2.holds Working.holds ++ extra)
      (job.run held w).1 := by
  induction job generalizing held w with
  | finish r => exact handles_releaseAll w held
  | fail e => exact handles_releaseAll w held
  | send o next ih => exact (handles_send (held ++ extra) w o).trans (ih held _)
  | record prompt next ih => exact (handles_remember (held ++ extra) w prompt).trans (ih held _)
  | sleep ms next ih =>
    rw [Job.run]
    split
    · exact ih held w
    · exact .rest
  | receive channel next ih =>
    refine handles_listen w channel fun i => ?_
    simp [Job.run, Poll.holds, Working.holds, or_comm]
  | listen channel next ih =>
    refine Handles.trans (handles_listen w channel fun i => ?_) (ih _ _)
    simp [or_assoc, or_comm (a := i ∈ extra)]
  | await number next ih =>
    rw [Job.run]
    split
    · exact .rest
    · next id hid =>
      have htaken : Handles (held ++ extra) w (held ++ extra) (w.taken id) :=
        handles_taken w (List.mem_append_left _ (List.mem_of_getElem? hid))
      split
      · exact htaken.trans (ih _ held _)
      · exact htaken.trans (handles_releaseAll _ held)
      · exact .rest
  | stall => exact .rest

theorem handles_workingPoll (work : Working β) (extra : List SubscriptionId) (w : World) :
    Handles (work.holds ++ extra) w ((work.poll w).2.holds Working.holds ++ extra)
      (work.poll w).1 := by
  cases work with
  | fresh job => exact handles_jobRun job [] extra w
  | asleep held wake next =>
    rw [Working.poll]
    split
    · exact handles_jobRun next held extra w
    · exact .rest
  | receiving held id next =>
    have hread : Handles (id :: (held ++ extra)) w (held ++ extra) ((w.taken id).release id) :=
      handles_read w id
    rw [Working.poll]
    split
    · exact hread.trans (handles_jobRun _ held extra _)
    · exact hread.trans (handles_releaseAll _ held)
    · exact .rest
  | awaiting held number next => exact handles_jobRun (.await number next) held extra w
  | stalled held => exact .rest

namespace Race

theorem handles_alone (work : Working β) (w : World) :
    Handles work.holds w ((alone work w).2.holds holds) (alone work w).1 := by
  have h := handles_workingPoll work [] w
  simp only [List.append_nil] at h
  unfold alone
  split
  · next hp =>
    rw [hp] at h
    exact h
  · next hp =>
    rw [hp] at h
    simpa [Poll.holds, holds] using h

/-- A race whose listener has been read: it is over, or the work goes on alone. -/
theorem handles_interrupted (work : Working β) (id : SubscriptionId) (w : World) :
    Handles (work.holds ++ [id]) w [] (((w.taken id).releaseAll work.holds).release id) ∧
      Handles (work.holds ++ [id]) w work.holds ((w.taken id).release id) := by
  have htaken : Handles (work.holds ++ [id]) w (work.holds ++ [id]) (w.taken id) :=
    handles_taken w (List.mem_append_right _ List.mem_cons_self)
  constructor
  · exact (htaken.trans (handles_releaseAll _ work.holds)).trans (handles_release _ id)
  · refine htaken.trans ⟨.drop .rest (List.mem_append_right _ List.mem_cons_self)
      (fun i hi => List.mem_append_left _ hi) fun i hi => ?_, rfl, rfl, rfl⟩
    rcases List.mem_append.1 hi with hi | hi
    · exact .inr hi
    · exact .inl (List.mem_singleton.1 hi)

theorem handles_poll (r : Race β) (w : World) :
    Handles r.holds w ((r.poll w).2.holds holds) (r.poll w).1 := by
  have h := handles_workingPoll r.work r.interrupts.toList w
  unfold poll
  split
  · next w' result hp =>
    rw [hp] at h
    refine h.trans ?_
    have hall : Handles (r.interrupts.toList ++ []) w' [] _ := handles_releaseAll w' _
    rwa [List.append_nil] at hall
  · next w' work hp =>
    rw [hp] at h
    cases hi : r.interrupts with
    | none =>
      rw [hi] at h
      simpa [holds, hi, Poll.holds] using h
    | some id =>
      rw [hi] at h
      have hrest := handles_interrupted work id w'
      simp only [holds, hi]
      split
      · exact h
      · exact h.trans hrest.1
      · exact (h.trans hrest.2).trans (handles_alone work _)

/-- **A race fails by an interrupt only.** -/
theorem poll_error {r : Race β} {w : World} {e : Error} (h : (r.poll w).2 = .ready (.error e)) :
    e = .interrupted := by
  have halone : ∀ (work : Working β) (w' : World), (alone work w').2 ≠ .ready (.error e) := by
    intro work w' ha
    unfold alone at ha
    split at ha <;> cases ha
  unfold poll at h
  split at h
  · cases h
  · split at h
    · cases h
    · split at h
      · cases h
      · cases h
        rfl
      · exact absurd h (halone _ _)

end Race

end

/-! ## The loop of a session -/

/-- The line is for the loop of the session whose completing task is `r`, or for a command in it. -/
def LineUse.Of (r : TaskId) : LineUse → Prop
  | input taker => taker = .session r
  | answer _ _ caller | collected _ caller => caller = .inputLoop (.session r)
  | answerAlone _ | lineAlone => False

namespace Stage

/-- The stages of the loop of a session whose completing task is `r`. -/
def Runs (r : TaskId) : Stage → Prop
  | asking _ use | awaitingLine _ use => use.Of r
  | commanding _ caller => caller = .inputLoop (.session r)
  | prompting _ responder | racing _ responder => responder = r
  | _ => False

/-- Where a turn of the loop leads: back into the loop, or to its end, without an error. -/
def Goes (r : TaskId) (held : List SubscriptionId) (w : World) (led : Led) : Prop :=
  (led.2.Runs r ∧ Handles held w led.2.holds led.1) ∨
    ∃ w', Handles held w [] w' ∧ led = endSession r (.ok ()) w'

variable {r : TaskId} {held : List SubscriptionId} {w : World}

theorem Goes.after {held' : List SubscriptionId} {w' : World} {led : Led}
    (h : Handles held w held' w') (hled : Goes r held' w' led) : Goes r held w led := by
  rcases hled with ⟨hs, hhandles⟩ | ⟨w'', hhandles, hled⟩
  · exact .inl ⟨hs, h.trans hhandles⟩
  · exact .inr ⟨w'', h.trans hhandles, hled⟩

theorem goes_endSession (w : World) : Goes r [] w (endSession r (.ok ()) w) := .inr ⟨w, .rest, rfl⟩

theorem goes_nextLine (w : World) : Goes r [] w (nextLine r w) := .inl ⟨rfl, .rest⟩

theorem goes_report (text : String) (style : Style) (w : World) :
    Goes r [] w (report text style r w) :=
  (goes_nextLine _).after (handles_send [] w _)

theorem goes_raced {result : Except Error (Except Error Unit)}
    (h : ∀ e, result = .error e → e = .interrupted) (w : World) :
    Goes r [] w (raced r result w) := by
  rcases result with e | ⟨e | _⟩
  · obtain rfl := h e rfl
    exact goes_report _ _ w
  · simp only [raced]
    split
    · exact goes_endSession w
    · exact goes_report _ _ w
  · exact goes_nextLine w

theorem goes_race (x : Race Unit) (w : World) : Goes r x.holds w (race r (x.poll w)) := by
  have hhandles := x.handles_poll w
  have herror : ∀ e, (x.poll w).2 = .ready (.error e) → e = .interrupted := fun e => Race.poll_error
  generalize x.poll w = p at *
  rcases p with ⟨w', result | x'⟩
  · exact (goes_raced (fun e he => herror e (by rw [he])) w').after hhandles
  · exact .inl ⟨rfl, hhandles⟩

theorem goes_engage (prompt : String) (w : World) : Goes r [] w (engage r prompt w) := by
  refine (goes_race _ _).after (handles_listen w _ fun i => ?_)
  simp [Race.holds, Working.holds]

theorem goes_takePrompt {prompt : Except Error String}
    (h : ∀ e, prompt = .error e → e.endsSession = true) (w : World) :
    Goes r [] w (takePrompt (.session r) prompt w) := by
  cases prompt with
  | error e =>
    simp only [takePrompt, h e rfl, if_true]
    exact goes_endSession w
  | ok p =>
    simp only [takePrompt]
    split
    · exact goes_nextLine w
    · exact .inl ⟨rfl, .rest⟩

theorem goes_commandDone (result : Except Error Unit) (w : World) :
    Goes r [] w (commandDone (.inputLoop (.session r)) result w) := by
  cases result with
  | ok u => exact goes_nextLine w
  | error e =>
    simp only [commandDone]
    split
    · next he => exact goes_takePrompt (fun e' h => by cases h; exact he) w
    · exact (goes_nextLine _).after (handles_send [] w _)

theorem goes_command (rest : Script) (w : World) :
    Goes r [] w (command (.inputLoop (.session r)) rest w) := by
  have hstep : ∀ {w' : World} {next : Stage}, Handles [] w [] w' → next.Runs r → next.holds = [] →
      Goes r [] w (w', next) := fun hw hs hh => .inl ⟨hs, by rw [hh]; exact hw⟩
  cases rest with
  | finish => exact goes_commandDone (.ok ()) w
  | fail e => exact goes_commandDone (.error e) w
  | send o next => exact hstep (handles_send [] w o) rfl rfl
  | look next => exact hstep .rest rfl rfl
  | change setting value next =>
    simp only [command]
    split
    · exact hstep ⟨.rest, rfl, rfl, rfl⟩ rfl rfl
    · exact hstep .rest rfl rfl
  | forget next => exact hstep ⟨.rest, rfl, rfl, rfl⟩ rfl rfl
  | ask default next => exact hstep .rest rfl rfl
  | collect plain next => exact hstep .rest rfl rfl

/-- A line that was awaited is used up; an error in its place ends the session. -/
theorem goes_useLine {use : LineUse} (hu : use.Of r) {line : Except Error String}
    (h : ∀ e, line = .error e → e.endsSession = true) (w : World) :
    Goes r [] w (Stage.useLine use line w) := by
  have hloop : ∀ e, line = .error e → Goes r [] w (takePrompt (.session r) (.error e) w) :=
    fun e he => goes_takePrompt (fun e' h' => by cases h'; exact h e he) w
  cases use with
  | input taker =>
    obtain rfl : taker = .session r := hu
    cases line with
    | error e => exact hloop e rfl
    | ok line =>
      simp only [useLine]
      split
      · exact .inl ⟨rfl, .rest⟩
      · exact goes_takePrompt (fun e he => by cases he) w
  | answer default next caller =>
    obtain rfl : caller = .inputLoop (.session r) := hu
    cases line with
    | error e => exact goes_commandDone (.error e) w
    | ok line =>
      simp only [useLine]
      split
      · exact .inl ⟨rfl, .rest⟩
      · exact .inl ⟨rfl, handles_send [] w _⟩
  | collected next caller =>
    obtain rfl : caller = .inputLoop (.session r) := hu
    cases line with
    | error e => exact goes_commandDone (.error e) w
    | ok line => exact .inl ⟨rfl, .rest⟩
  | answerAlone default => exact hu.elim
  | lineAlone => exact hu.elim

theorem goes_askLine {use : LineUse} (hu : use.Of r) (plain : Bool) (w : World) :
    Goes r [] w (askLine plain use w) := by
  refine .inl ⟨hu, (handles_send [] w (.lineRequest plain)).trans (handles_listen _ _ fun i => ?_)⟩
  simp [askLine, holds]

/-- **A turn of the loop** leads back into the loop, or ends it without an error and with every
subscription given up. -/
theorem goes_turn {stage : Stage} (h : stage.Runs r) (w : World) :
    Goes r stage.holds w (stage.turn w) := by
  cases stage with
  | asking plain use => exact goes_askLine h plain w
  | awaitingLine reply use =>
    have hread : Handles [reply] w [] ((w.taken reply).release reply) := handles_read w reply
    simp only [turn]
    split
    · exact .inl ⟨h, .rest⟩
    · exact (goes_useLine h (fun e he => by cases he; rfl) _).after hread
    · refine (goes_useLine h (fun e he => ?_) _).after hread
      simp only [lineOf] at he
      split at he
      · cases he
        rfl
      · cases he
  | commanding rest caller =>
    obtain rfl : caller = .inputLoop (.session r) := h
    exact goes_command rest w
  | prompting prompt responder =>
    obtain rfl : responder = r := h
    exact goes_engage prompt w
  | racing x responder =>
    obtain rfl : responder = r := h
    exact goes_race x w
  | _ => exact h.elim

end Stage

/-- A task of a session goes on from the stage to which it has been led. -/
theorem sessionTurn_progress (led : Led) :
    (sessionTurn led).2 = .wait (.session led.2) ∨ (sessionTurn led).2 = .again (.session led.2) := by
  simp only [sessionTurn]
  split
  · exact .inr rfl
  · exact .inl rfl

end Parley
