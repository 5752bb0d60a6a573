import Mathlib.Logic.Relation
import Parley.Proofs.Schedule.Queue
import Parley.Session.Program

/-!
# What a session does in a turn

A turn of a session is a list of deeds (`Stage.deeds_turn`): it sends, listens, reads, gives a
subscription back, connects or closes the bus, and starts or cancels a task. What every deed keeps is
therefore kept by every turn. The exception is a step of a command that sets a setting, which does
nothing else (`Stage.settings_change`).

The events of a `Deed` are those of which `p` holds. A session publishes on the default channel and
announces its end, it requests lines, and its commands send messages (`Stage.sends?`); what else is
published in its turns is the engine's (`Stage.deeds_turn_of`). So it publishes on channels that
everyone uses, whose names have no colon, unless it runs a command or the engine
(`Stage.deeds_turn`).
-/

set_option autoImplicit false

namespace Parley

/-- One thing that a task does; it publishes nothing but events of which `p` holds. -/
inductive Deed (p : Event Message → Prop) (w : World) : World → Prop
  | send (o : Outgoing) (h : p ⟨o.channel, w.stamp o⟩) : Deed p w (w.send o)
  | listen (channel : String) : Deed p w (w.listen channel)
  | taken (id : SubscriptionId) : Deed p w (w.taken id)
  | release (id : SubscriptionId) : Deed p w (w.release id)
  | connect {w' : World} (h : Schedule.connect w = .ok w') : Deed p w w'
  | detach : Deed p w w.detach
  | closeAll : Deed p w w.closeAll
  | attend (requests : SubscriptionId) : Deed p w (w.spawn (.responder requests))
  | abort (task : TaskId) : Deed p w (w.abort task)
  | remember (prompt : String) : Deed p w (remember prompt w)
  | forget : Deed p w (Stage.forget w)

abbrev Deeds (p : Event Message → Prop) : World → World → Prop := Relation.ReflTransGen (Deed p)

namespace Deeds

variable {p : Event Message → Prop} {w : World}

theorem send (o : Outgoing) (h : p ⟨o.channel, w.stamp o⟩) : Deeds p w (w.send o) :=
  .single (.send o h)

theorem listen (channel : String) : Deeds p w (w.listen channel) := .single (.listen channel)

theorem read (id : SubscriptionId) : Deeds p w ((w.taken id).release id) :=
  .tail (.single (.taken id)) (.release id)

theorem releaseAll (ids : List SubscriptionId) : Deeds p w (w.releaseAll ids) := by
  induction ids generalizing w with
  | nil => exact .refl
  | cons id ids ih => exact .head (.release id) ih

end Deeds

/-! ## Work -/

section
variable {β : Type} {p : Event Message → Prop} (hp : ∀ e, p e)
include hp

theorem deeds_jobRun (job : Job β) (held : List SubscriptionId) (w : World) :
    Deeds p w (job.run held w).1 := by
  induction job generalizing held w with
  | finish r => exact .releaseAll held
  | fail e => exact .releaseAll held
  | send o next ih => exact (Deeds.send o (hp _)).trans (ih _ _)
  | record prompt next ih => exact .head (.remember prompt) (ih _ _)
  | sleep ms next ih =>
    rw [Job.run]
    split
    · exact ih held w
    · exact .refl
  | receive channel next ih => exact .listen channel
  | listen channel next ih => exact (Deeds.listen channel).trans (ih _ _)
  | await number next ih =>
    rw [Job.run]
    split
    · exact .refl
    · split
      · exact .head (.taken _) (ih _ _ _)
      · exact .head (.taken _) (Deeds.releaseAll held)
      · exact .refl
  | stall => exact .refl

theorem deeds_workingPoll (work : Working β) (w : World) : Deeds p w (work.poll w).1 := by
  cases work with
  | fresh job => exact deeds_jobRun hp job [] w
  | asleep held wake next =>
    rw [Working.poll]
    split
    · exact deeds_jobRun hp next held w
    · exact .refl
  | receiving held id next =>
    rw [Working.poll]
    split
    · exact (Deeds.read id).trans (deeds_jobRun hp _ _ _)
    · exact (Deeds.read id).trans (Deeds.releaseAll held)
    · exact .refl
  | awaiting held number next => exact deeds_jobRun hp (.await number next) held w
  | stalled held => exact .refl

theorem deeds_alone (work : Working β) (w : World) : Deeds p w (Race.alone work w).1 := by
  have h := deeds_workingPoll hp work w
  unfold Race.alone
  split
  all_goals
    next hpoll =>
    rw [hpoll] at h
    exact h

theorem deeds_racePoll (r : Race β) (w : World) : Deeds p w (r.poll w).1 := by
  have h := deeds_workingPoll hp r.work w
  unfold Race.poll
  split
  · next hpoll =>
    rw [hpoll] at h
    exact h.trans (Deeds.releaseAll _)
  · next w' work hpoll =>
    rw [hpoll] at h
    split
    · exact h
    · next id _ =>
      have htaken : Deeds p w (w'.taken id) := .tail h (.taken id)
      split
      · exact h
      · exact .tail (htaken.trans (Deeds.releaseAll work.holds)) (.release id)
      · exact (htaken.tail (.release id)).trans (deeds_alone hp _ _)

theorem deeds_responderTurn (requests : SubscriptionId) (w : World) :
    Deeds p w (responderTurn requests w).1 := by
  unfold responderTurn
  split
  · exact .refl
  · exact .read requests
  · exact .head (.taken requests) (Deeds.send _ (hp _))

end

/-! ## Turns -/

namespace Stage

/-- The turn runs a command or the engine. -/
def isForeign : Stage → Bool
  | commanding _ _ | prompting _ _ | racing _ _ | responding _ | unstarted (.response _) => true
  | _ => false

/-- The turn runs the engine. -/
def engages : Stage → Bool
  | prompting _ _ | racing _ _ | responding _ | unstarted (.response _) => true
  | _ => false

/-- What the turn sends for the session or for a command that it runs: a request for a line, or the
message of the command's next step. -/
def sends? : Stage → Option Outgoing
  | asking plain _ => some (.lineRequest plain)
  | commanding (.send o _) _ => some o
  | _ => none

/-- The setting that the turn sets, and the text that it sets it to. -/
def change? : Stage → Option (Setting × String)
  | commanding (.change setting value _) _ => some (setting, value)
  | _ => none

section
variable {p : Event Message → Prop}

theorem deeds_closed (outcome : Except Error Unit) (w : World) : Deeds p w (closed outcome w).1 :=
  .single .closeAll

theorem deeds_flush (outcome : Except Error Unit) (w : World) : Deeds p w (flush outcome w).1 := by
  unfold flush disconnect
  split
  · split
    · exact .single .detach
    · exact deeds_closed outcome w
  · exact .refl

variable (hp : ∀ e : Event Message,
  e.channel = Channel.default ∨ e.channel = Channel.sessionExit → p e)
include hp

theorem deeds_styled (text : String) (style : Style) (w : World) :
    Deeds p w (w.send (.styled text style)) := .send _ (hp _ (.inl rfl))

theorem deeds_announce (outcome : Except Error Unit) (w : World) :
    Deeds p w (announce outcome w).1 :=
  (Deeds.send { channel := Channel.sessionExit } (hp _ (.inr rfl))).trans (deeds_flush outcome _)

theorem deeds_endSession (responder : TaskId) (outcome : Except Error Unit) (w : World) :
    Deeds p w (endSession responder outcome w).1 := by
  unfold endSession
  split
  · exact .single (.abort responder)
  · exact deeds_announce hp outcome w

theorem deeds_race (responder : TaskId)
    (polled : World × Poll (Except Error (Except Error Unit)) (Race Unit)) :
    Deeds p polled.1 (race responder polled).1 := by
  unfold race raced
  split
  · split
    · exact .refl
    · split
      · exact deeds_endSession hp responder _ _
      · exact deeds_styled hp _ _ _
    · exact deeds_styled hp _ _ _
    · exact deeds_endSession hp responder _ _
  · exact .refl

theorem deeds_takePrompt (taker : PromptTaker) (prompt : Except Error String) (w : World) :
    Deeds p w (takePrompt taker prompt w).1 := by
  unfold takePrompt
  split
  · exact .refl
  · split <;> exact .refl
  · exact deeds_endSession hp _ _ w

theorem deeds_commandDone (caller : CommandCaller) (result : Except Error Unit) (w : World) :
    Deeds p w (commandDone caller result w).1 := by
  unfold commandDone
  split
  · exact .refl
  · exact .refl
  · split
    · exact deeds_takePrompt hp _ _ w
    · exact deeds_styled hp _ _ w

theorem deeds_useLine (use : LineUse) (line : Except Error String) (w : World) :
    Deeds p w (useLine use line w).1 := by
  unfold useLine
  split
  · exact deeds_takePrompt hp _ _ w
  · split
    · exact .refl
    · exact deeds_takePrompt hp _ _ w
  · exact deeds_commandDone hp _ _ w
  · split
    · exact .refl
    · exact deeds_styled hp _ _ w
  · exact deeds_commandDone hp _ _ w
  · exact .refl
  · exact .refl
  · split
    · exact .refl
    · exact deeds_styled hp _ _ w
  · exact .refl

omit hp in
theorem deeds_startSession (w : World) : Deeds p w (startSession w).1 := by
  unfold startSession
  split
  · exact .refl
  · next h =>
    exact .tail (.head (.connect h) (Deeds.listen Channel.completionRequest)) (.attend _)

/-- **A turn that sets nothing is a list of deeds.** What it publishes is what the stage sends, or on
the default channel, or the announcement of the end, or what the engine publishes. -/
theorem deeds_turn_of {stage : Stage} (h : stage.change? = none) (w : World)
    (hsends : ∀ o, stage.sends? = some o → p ⟨o.channel, w.stamp o⟩)
    (hengages : stage.engages = true → ∀ e, p e) :
    Deeds p w (stage.turn w).1 := by
  cases stage with
  | unstarted target =>
    cases target with
    | session => exact deeds_startSession w
    | response prompt =>
      have hrun := deeds_jobRun (hengages rfl) (w.shared.engine.respond w.shared.settings prompt) [] w
      simp only [turn, start, answered]
      split
      all_goals
        next hp =>
        rw [hp] at hrun
        exact hrun
    | _ => exact .refl
  | asking plain use => exact (Deeds.send _ (hsends _ rfl)).trans (Deeds.listen _)
  | awaitingLine reply use =>
    simp only [turn]
    split
    · exact .refl
    · exact (Deeds.read reply).trans (deeds_useLine hp _ _ _)
    · exact (Deeds.read reply).trans (deeds_useLine hp _ _ _)
  | commanding rest caller =>
    cases rest with
    | finish => exact deeds_commandDone hp caller _ w
    | fail e => exact deeds_commandDone hp caller _ w
    | send o next => exact .send o (hsends o rfl)
    | change setting value next => cases h
    | forget next => exact .single .forget
    | _ => exact .refl
  | prompting prompt responder =>
    have hrace : Deeds p w ((Race.start (w.shared.engine.respond w.shared.settings prompt) w).1.poll
        (Race.start (w.shared.engine.respond w.shared.settings prompt) w).2).1 :=
      (Deeds.listen Channel.interrupt).trans (deeds_racePoll (hengages rfl) _ _)
    exact hrace.trans (deeds_race hp _ _)
  | responding work =>
    have hpoll := deeds_workingPoll (hengages rfl) work w
    simp only [turn, answered]
    split
    all_goals
      next hp =>
      rw [hp] at hpoll
      exact hpoll
  | racing r responder =>
    exact (deeds_racePoll (hengages rfl) r w).trans (deeds_race hp _ _)
  | dismissing responder outcome =>
    simp only [turn]
    split
    · exact .refl
    · exact deeds_announce hp outcome w
  | flushing outcome => exact deeds_flush outcome w
  | disconnecting task outcome =>
    simp only [turn]
    split
    · exact .refl
    · exact deeds_closed outcome w
  | done outcome => exact .refl

omit hp in
/-- A session publishes on channels without a colon, unless it runs a command or the engine. -/
theorem deeds_turn (hp : ∀ e : Event Message, ':' ∉ e.channel.toList → p e) {stage : Stage}
    (h : stage.change? = none) (hforeign : stage.isForeign = true → ∀ e, p e) (w : World) :
    Deeds p w (stage.turn w).1 := by
  have hdefault : ':' ∉ Channel.default.toList := by decide
  have hexit : ':' ∉ Channel.sessionExit.toList := by decide
  have hrequest : ':' ∉ Channel.inputRequest.toList := by decide
  refine deeds_turn_of (fun e he => hp e ?_) h w (fun o ho => ?_) fun hengages => hforeign ?_
  · rcases he with he | he
    · exact he ▸ hdefault
    · exact he ▸ hexit
  · cases stage with
    | asking plain use =>
      cases ho
      exact hp _ hrequest
    | commanding rest caller => exact hforeign rfl _
    | _ => cases ho
  · unfold engages at hengages
    split at hengages <;> first | rfl | cases hengages

end

/-- A turn that sets something leaves all else as it is, and the settings too if the text is no value
for them. -/
theorem settings_change {stage : Stage} {setting : Setting} {value : String}
    (h : stage.change? = some (setting, value)) (w : World) :
    ∃ settings, (stage.turn w).1 = withSettings settings w ∧
      (settings = w.shared.settings ∨ w.shared.settings.set setting value = .ok settings) := by
  unfold change? at h
  split at h
  · cases h
    simp only [turn, command]
    split
    · next settings hset => exact ⟨settings, rfl, .inr hset⟩
    · exact ⟨w.shared.settings, rfl, .inl rfl⟩
  · cases h

end Stage

end Parley
