import Parley.Proofs.Session.Closing
import Parley.Proofs.Session.Commanding

/-!
# What a session says at its end

On the channel for the end of a session anybody may publish, also a command or the engine. Apart from
these (`Visit.served`), a turn of the session publishes nothing there, or the announcement of the end
and nothing else (`Stage.parts_turn`), and it is the announcement exactly if the turn leads to a stage
in which the end has been announced (`Visit.exits`).
-/

set_option autoImplicit false

namespace Parley

/-- The world when a command or the engine has done what it does in the turn. -/
def Visit.served (v : Visit) : World :=
  match v.stage with
  | .commanding (.send o _) _ => v.world.send o
  | _ => v.worked

/-- On the channel for the end of a session exactly these events have been published. -/
def ExitsWith (es : List (Event Message)) (w w' : World) : Prop :=
  ∃ published, Bus.Publishes published w.bus w'.bus ∧ Event.on "session_exit" published = es

namespace ExitsWith

variable {es es' : List (Event Message)} {w w' w'' : World}

theorem trans (h : ExitsWith es w w') (h' : ExitsWith es' w' w'') :
    ExitsWith (es ++ es') w w'' := by
  obtain ⟨published, hpublished, rfl⟩ := h
  obtain ⟨published', hpublished', rfl⟩ := h'
  exact ⟨_, hpublished.trans hpublished', Event.on_append _ _ _⟩

theorem of_bus (h : w'.bus = w.bus) : ExitsWith [] w w' := ⟨[], h ▸ .refl, rfl⟩

theorem of_deeds (h : Deeds (fun e => e.channel ≠ "session_exit") w w') : ExitsWith [] w w' := by
  obtain ⟨es, hes, hp⟩ := h.publishes
  exact ⟨es, hes, List.filter_eq_nil_iff.2 fun e he hsame => hp e he (eq_of_beq hsame)⟩

theorem styled (text : String) (style : Style) (w : World) :
    ExitsWith [] w (w.send (.styled text style)) :=
  of_deeds (.send _ (show Channel.default ≠ "session_exit" by decide))

end ExitsWith

namespace Stage

/-! ## The announcement -/

theorem exits_announce (outcome : Except Error Unit) (w : World) :
    ExitsWith [Life.exitEvent w] w (announce outcome w).1 := by
  have hsent : ExitsWith [Life.exitEvent w] w (w.send { channel := Channel.sessionExit }) :=
    ⟨_, .send w _, rfl⟩
  exact hsent.trans (.of_deeds (deeds_flush outcome _))

/-- No message has been stamped, and no time has passed. -/
def Stamps (w w' : World) : Prop := w'.stamped = w.stamped ∧ w'.clock = w.clock

theorem stamps_of_roused {w w' : World} (h : Schedule.Roused w w') : Stamps w w' :=
  ⟨congrArg (·.stamped) h.same, congrArg (·.clock) h.same⟩

theorem stamps_detach (w : World) : Stamps w w.detach := by
  unfold Schedule.detach Schedule.abort
  split
  · dsimp only
    split
    · next task _ _ =>
      have hroused := stamps_of_roused (Schedule.roused_rouse
        (Schedule.markCancelled { w with bus := w.bus.detach, dispatcher := none } task) task)
      exact ⟨hroused.1, hroused.2⟩
    · exact ⟨rfl, rfl⟩
  · exact ⟨rfl, rfl⟩

theorem stamps_flush (outcome : Except Error Unit) (w : World) :
    Stamps w (flush outcome w).1 := by
  unfold flush disconnect
  split
  · split
    · exact stamps_detach w
    · have hroused := stamps_of_roused
        (Schedule.roused_signals { w with bus := w.bus.closeAll } w.bus.table.all)
      exact ⟨hroused.1, hroused.2⟩
  · exact ⟨rfl, rfl⟩

/-- The announcement can be told from the world after it. -/
theorem stamps_announce (outcome : Except Error Unit) (w : World) :
    Stamps { w with stamped := w.stamped + 1 } (announce outcome w).1 := by
  have hsent : Stamps { w with stamped := w.stamped + 1 }
      (w.send { channel := Channel.sessionExit }) := by
    have hroused := stamps_of_roused (Schedule.roused_nudge { w with
      stamped := w.stamped + 1
      bus := w.bus.publish ⟨Channel.sessionExit, w.stamp { channel := Channel.sessionExit }⟩ })
    exact ⟨hroused.1, hroused.2⟩
  have hflush := stamps_flush outcome (w.send { channel := Channel.sessionExit })
  exact ⟨hflush.1.trans hsent.1, hflush.2.trans hsent.2⟩

theorem exitEvent_eq {outcome outcome' : Except Error Unit} {w w' : World}
    (h : (announce outcome w).1 = (announce outcome' w').1) :
    Life.exitEvent w = Life.exitEvent w' := by
  obtain ⟨hstamped, hclock⟩ := stamps_announce outcome w
  obtain ⟨hstamped', hclock'⟩ := stamps_announce outcome' w'
  rw [h] at hstamped hclock
  have hnumber : w.stamped = w'.stamped := Nat.succ.inj (hstamped.symm.trans hstamped')
  have htime : w.clock = w'.clock := hclock.symm.trans hclock'
  rw [Life.exitEvent, Life.exitEvent, hnumber, htime]

/-! ## A turn -/

/-- A turn publishes nothing on the channel and does not lead past the announcement, or it comes to
the announcement. -/
inductive Parts (w : World) (led : Led) : Prop
  | stays (hquiet : ExitsWith [] w led.1) (hnext : led.2.isAnnounced = false)
  | announces {w' : World} (hquiet : ExitsWith [] w w') (hled : led = announce (.ok ()) w')

variable {r : TaskId} {w : World}

theorem Parts.after {w' : World} {led : Led} (h : ExitsWith [] w w') (hled : Parts w' led) :
    Parts w led := by
  cases hled with
  | stays hquiet hnext => exact .stays (h.trans hquiet) hnext
  | announces hquiet hled => exact .announces (h.trans hquiet) hled

theorem parts_endSession (w : World) : Parts w (endSession r (.ok ()) w) := by
  unfold endSession
  split
  · exact .stays (.of_deeds (.single (.abort r))) rfl
  · exact .announces (.of_bus rfl) rfl

theorem parts_raced {result : Except Error (Except Error Unit)}
    (h : ∀ e, result = .error e → e = .interrupted) (w : World) : Parts w (raced r result w) := by
  rcases result with e | ⟨e | _⟩
  · obtain rfl := h e rfl
    exact .stays (ExitsWith.styled _ _ w) rfl
  · simp only [raced]
    split
    · exact parts_endSession w
    · exact .stays (ExitsWith.styled _ _ w) rfl
  · exact .stays (.of_bus rfl) rfl

theorem parts_race (x : Race Unit) (w : World) :
    Parts (x.poll w).1 (race r (x.poll w)) := by
  have herror : ∀ e, (x.poll w).2 = .ready (.error e) → e = .interrupted := fun e => Race.poll_error
  generalize x.poll w = p at *
  rcases p with ⟨w', result | x'⟩
  · exact parts_raced (fun e he => herror e (by rw [he])) w'
  · exact .stays (.of_bus rfl) rfl

theorem parts_takePrompt {prompt : Except Error String}
    (h : ∀ e, prompt = .error e → e.endsSession = true) (w : World) :
    Parts w (takePrompt (.session r) prompt w) := by
  cases prompt with
  | error e =>
    simp only [takePrompt, h e rfl, if_true]
    exact parts_endSession w
  | ok p =>
    simp only [takePrompt]
    split <;> exact .stays (.of_bus rfl) rfl

theorem parts_commandDone (result : Except Error Unit) (w : World) :
    Parts w (commandDone (.inputLoop (.session r)) result w) := by
  cases result with
  | ok u => exact .stays (.of_bus rfl) rfl
  | error e =>
    simp only [commandDone]
    split
    · next he => exact parts_takePrompt (fun e' h => by cases h; exact he) w
    · exact .stays (ExitsWith.styled _ _ w) rfl

theorem parts_command (rest : Script) (w : World) :
    Parts (Visit.served ⟨.commanding rest (.inputLoop (.session r)), w⟩)
      (command (.inputLoop (.session r)) rest w) := by
  cases rest with
  | finish => exact parts_commandDone (.ok ()) w
  | fail e => exact parts_commandDone (.error e) w
  | change setting value next =>
    simp only [command]
    split <;> exact .stays (.of_bus rfl) rfl
  | _ => exact .stays (.of_bus rfl) rfl

theorem parts_useLine {use : LineUse} (hu : use.Of r) {line : Except Error String}
    (h : ∀ e, line = .error e → e.endsSession = true) (w : World) :
    Parts w (useLine use line w) := by
  have hloop : ∀ e, line = .error e → Parts w (takePrompt (.session r) (.error e) w) :=
    fun e he => parts_takePrompt (fun e' h' => by cases h'; exact h e he) w
  cases use with
  | input taker =>
    obtain rfl : taker = .session r := hu
    cases line with
    | error e => exact hloop e rfl
    | ok line =>
      simp only [useLine]
      split
      · exact .stays (.of_bus rfl) rfl
      · exact parts_takePrompt (fun e he => by cases he) w
  | answer default next caller =>
    obtain rfl : caller = .inputLoop (.session r) := hu
    cases line with
    | error e => exact parts_commandDone (.error e) w
    | ok line =>
      simp only [useLine]
      split
      · exact .stays (.of_bus rfl) rfl
      · exact .stays (ExitsWith.styled _ _ w) rfl
  | collected next caller =>
    obtain rfl : caller = .inputLoop (.session r) := hu
    cases line with
    | error e => exact parts_commandDone (.error e) w
    | ok line => exact .stays (.of_bus rfl) rfl
  | answerAlone default => exact hu.elim
  | lineAlone => exact hu.elim

/-- **What a turn says about the end**, as long as that has not been announced. -/
theorem parts_turn {stage : Stage} (h : stage.Attends r) (w : World) :
    Parts (Visit.served ⟨stage, w⟩) (stage.turn w) := by
  rcases h with h | rfl
  · cases stage with
    | asking plain use =>
      refine .stays (.of_deeds ?_) rfl
      have hsend : Deeds (fun e => e.channel ≠ "session_exit") w (w.send (.lineRequest plain)) :=
        .send _ (show Channel.inputRequest ≠ "session_exit" by decide)
      exact hsend.trans (Deeds.listen _)
    | awaitingLine reply use =>
      have hread : ExitsWith [] w ((w.taken reply).release reply) := .of_deeds (.read reply)
      simp only [turn]
      split
      · exact .stays (.of_bus rfl) rfl
      · exact (parts_useLine h (fun e he => by cases he; rfl) _).after hread
      · refine (parts_useLine h (fun e he => ?_) _).after hread
        simp only [lineOf] at he
        split at he
        · cases he
          rfl
        · cases he
    | commanding rest caller =>
      obtain rfl : caller = .inputLoop (.session r) := h
      exact parts_command rest w
    | prompting prompt responder => exact parts_race _ _
    | racing x responder => exact parts_race x w
    | _ => exact h.elim
  · simp only [turn]
    split
    · exact .stays (.of_bus rfl) rfl
    · exact .announces (.of_bus rfl) rfl

/-- Once the end has been announced, nothing more is said. -/
theorem exits_announced {stage : Stage} (h : stage.isAnnounced = true) (w : World) :
    ExitsWith [] w (stage.turn w).1 := by
  cases stage with
  | flushing outcome => exact .of_deeds (deeds_flush outcome w)
  | disconnecting task outcome =>
    simp only [turn]
    split
    · exact .of_bus rfl
    · exact .of_deeds (deeds_closed outcome w)
  | done outcome => exact .of_bus rfl
  | _ => cases h

end Stage

/-- **What a session says at its end**: on the channel for that, a turn publishes the announcement if
it announces the end, and nothing otherwise. -/
theorem Visit.exits {v : Visit} (h : v.stage.InLife) :
    v.announces = false ∧ ExitsWith [] v.served v.led.1 ∨
      ∃ w, v.announces = true ∧ v.led = Stage.announce (.ok ()) w ∧
        ExitsWith [Life.exitEvent w] v.served v.led.1 := by
  obtain ⟨stage, w⟩ := v
  rcases h with rfl | ⟨r, hattends⟩ | hannounced | ⟨e, rfl⟩
  · refine .inl ⟨?_, .of_deeds (Stage.deeds_startSession w)⟩
    simp only [announces, led, Stage.turn, Stage.start, Stage.startSession]
    split <;> rfl
  · have hstage := Life.isAnnounced_of_attends hattends
    cases Stage.parts_turn hattends w with
    | stays hquiet hnext =>
      refine .inl ⟨?_, hquiet⟩
      rw [announces, led, hnext, Bool.and_false]
    | @announces w' hquiet hled =>
      refine .inr ⟨w', ?_, hled, ?_⟩
      · rw [announces, led, hstage, hled, show (Stage.announce (.ok ()) w').2.isAnnounced = true from
          Life.isAnnounced_flush _]
        rfl
      · rw [led, hled]
        exact hquiet.trans (Stage.exits_announce (.ok ()) w')
  · refine .inl ⟨?_, ?_⟩
    · rw [announces, hannounced]
      rfl
    · have hserved : served ⟨stage, w⟩ = w := by cases stage <;> first | rfl | cases hannounced
      rw [hserved]
      exact Stage.exits_announced hannounced w
  · exact .inl ⟨rfl, .of_bus rfl⟩

end Parley
