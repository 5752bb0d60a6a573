import Parley.Proofs.Command.Builtin
import Parley.Proofs.Session.Calls
import Parley.Proofs.Text.Blank

/-!
# The turns of a session

A `Visit` is a turn of a session's task, with the stage it was in and the world it found. Read off
it are the request for a line that it publishes, the `Answer` that it reads, and the prompt that it
hands to the engine; `Dialogue.prompts` says which answers are prompts, by looking at the answers
alone.

`Stage.InSession` are the stages of a session with the built-in commands. `Visit.Follows` lists what
may come next after a turn in one of them, and `Visit.follows_turn` says that nothing else does.
-/

set_option autoImplicit false

namespace Parley

/-- A turn of a task: where it stood, and the world it found. -/
structure Visit where
  stage : Stage
  world : World

/-- A reply that a session has read. -/
structure Answer where
  /-- It answers the session's own request, not the question of a command. -/
  own : Bool
  /-- The settings when it was read. -/
  settings : Settings
  event : Event Message

namespace Answer

/-- The text of the reply; what is no text counts as the empty line. -/
def line (a : Answer) : String := a.event.payload.text?.getD ""

def isExit (a : Answer) : Bool := a.settings.isExitWord a.line

/-- The line begins with the sigil of a command, apart from leading blanks. -/
def isCommand (a : Answer) : Bool := (Text.trimStart a.line).toList.head? == some sigil

def isBlank (a : Answer) : Bool := a.line.toList.all Text.isBlank

/-- The prompt that an answer is, if it is no exit word. -/
def prompt? (a : Answer) : Option String :=
  if a.own && !a.isCommand && !a.isBlank then some a.line else none

/-- The answer came on the reply channel of the request, and it is the session's own exactly if the
request allows commands. -/
def RepliesTo (a : Answer) (request : Message) : Prop :=
  a.event.channel = request.replyChannel ∧ request.extra.get? "plain" = some (.bool !a.own)

end Answer

/-- The prompts among answers: everything up to the first exit word that is the session's own, no
command line and not blank. -/
def Dialogue.prompts : List Answer → List String
  | [] => []
  | a :: rest => if a.isExit then [] else a.prompt?.toList ++ prompts rest

/-- The line is for the session itself, not for a question of a command. -/
def LineUse.isOwn : LineUse → Bool
  | input _ => true
  | _ => false

namespace Stage

/-- The session has come to its end: neither engine nor command is reached from here. -/
def isClosing : Stage → Bool
  | dismissing _ _ | flushing _ | disconnecting _ _ | done _ => true
  | _ => false

/-- The prompt that the next turn hands to the engine. -/
def pending? : Stage → Option String
  | prompting prompt _ => some prompt
  | _ => none

end Stage

namespace Visit

/-- What the turn leads to. -/
def led (v : Visit) : Led := v.stage.turn v.world

/-- The request that the turn publishes. -/
def request? (v : Visit) : Option Message :=
  match v.stage with
  | .asking plain _ =>
    some
      { id := .ofSerial v.world.stamped
        channel := "input_request"
        source := .server
        data := .null
        extra := [("plain", .bool plain)]
        createdAt := .ofMillis v.world.clock }
  | _ => none

/-- The reply that the turn reads. -/
def answer? (v : Visit) : Option Answer :=
  match v.stage with
  | .awaitingLine reply use =>
    match v.world.peek reply with
    | .event event => some { own := use.isOwn, settings := v.world.shared.settings, event }
    | _ => none
  | _ => none

/-- The prompt that the turn hands to the engine. -/
def prompt? (v : Visit) : Option String := v.stage.pending?

/-- The turn ends what the session was doing: it is the start, passes over a blank line, is the last
step of a command, or finds a response finished, failed or interrupted. -/
def Concludes (v : Visit) : Prop :=
  match v.stage with
  | .unstarted _ => True
  | .awaitingLine _ _ =>
    ∃ a, v.answer? = some a ∧ a.own ∧ a.isExit = false ∧ a.isCommand = false ∧ a.isBlank
  | .commanding .finish _ | .commanding (.fail _) _ => True
  | .prompting prompt _ =>
    let response := v.world.shared.engine.respond v.world.shared.settings prompt
    let race := Race.start response v.world
    ∃ result, (race.1.poll race.2).2 = .ready result
  | .racing r _ => ∃ result, (r.poll v.world).2 = .ready result
  | _ => False

/-- The turn is the step of a command that asks a question, or reads an answer to it that is neither
yes nor no. -/
def Questions (v : Visit) : Prop :=
  match v.stage with
  | .commanding (.ask _ _) _ => True
  | .awaitingLine _ (.answer default _ _) =>
    ∃ a, v.answer? = some a ∧ a.isExit = false ∧ Stage.yesNo? default a.line = none
  | _ => False

end Visit

/-! ## Reading a line -/

theorem Answer.isCommand_eq (a : Answer) : a.isCommand = (Stage.commandLine? a.line).isSome := by
  rw [Answer.isCommand, Stage.commandLine?, Registry.afterSigil?]
  cases (Text.trimStart a.line).toList with
  | nil => rfl
  | cons c cs => by_cases hc : c = sigil <;> simp [hc]

/-! ## The stages of a session -/

/-- The line is for the loop of a session, or for a question of a command that it runs. -/
def LineUse.InSession : LineUse → Prop
  | input (.session _) => True
  | answer _ next (.inputLoop (.session _)) => ∀ b, (next b).OnlyQuestions
  | _ => False

def CommandCaller.InSession : CommandCaller → Prop
  | inputLoop (.session _) => True
  | _ => False

/-- The stages that a session goes through with the built-in commands. -/
def Stage.InSession : Stage → Prop
  | unstarted target => target = .session
  | asking plain use => use.InSession ∧ plain = !use.isOwn
  | awaitingLine _ use => use.InSession
  | commanding rest caller => caller.InSession ∧ rest.OnlyQuestions
  | responding _ => False
  | _ => True

namespace Visit

/-- If the turn reads an answer, that is neither an exit word nor a prompt. -/
def Unused (v : Visit) : Prop := ∀ a, v.answer? = some a → a.isExit = false ∧ a.prompt? = none

theorem unused_of_none {v : Visit} (h : v.answer? = none) : v.Unused := fun a ha => by
  rw [h] at ha
  cases ha

/-- What may come next after a turn. -/
inductive Follows (v : Visit) : Stage → Prop
  | closing {next : Stage} (hn : next.isClosing = true)
    (ha : ∀ a, v.answer? = some a → a.isExit = true) : Follows v next
  | own {responder : TaskId} (hv : v.Concludes) (ha : v.Unused) :
    Follows v (.asking false (.input (.session responder)))
  | question {use : LineUse} (hu : use.InSession) (ho : use.isOwn = false) (hv : v.Questions)
    (ha : v.Unused) : Follows v (.asking true use)
  | asked {plain : Bool} {use : LineUse} {reply : SubscriptionId}
    (hv : v.stage = .asking plain use) : Follows v (.awaitingLine reply use)
  | waiting {reply : SubscriptionId} {use : LineUse} (hv : v.stage = .awaitingLine reply use)
    (ha : v.answer? = none) : Follows v (.awaitingLine reply use)
  | command {rest : Script} {caller : CommandCaller} (hc : caller.InSession)
    (hr : rest.OnlyQuestions) (ha : v.Unused) : Follows v (.commanding rest caller)
  | prompt {prompt : String} {responder : TaskId} {a : Answer} (ha : v.answer? = some a)
    (he : a.isExit = false) (hp : a.prompt? = some prompt) : Follows v (.prompting prompt responder)
  | race {r : Race Unit} {responder : TaskId} (ha : v.answer? = none) :
    Follows v (.racing r responder)

end Visit

/-! ## What a turn leads to -/

namespace Stage

theorem isClosing_closed (outcome : Except Error Unit) (w : World) :
    (closed outcome w).2.isClosing = true := rfl

theorem isClosing_disconnect (outcome : Except Error Unit) (w : World) :
    (disconnect outcome w).2.isClosing = true := by
  unfold disconnect
  split
  · rfl
  · exact isClosing_closed outcome w

theorem isClosing_flush (outcome : Except Error Unit) (w : World) :
    (flush outcome w).2.isClosing = true := by
  unfold flush
  split
  · exact isClosing_disconnect outcome w
  · rfl

theorem isClosing_announce (outcome : Except Error Unit) (w : World) :
    (announce outcome w).2.isClosing = true := isClosing_flush outcome _

theorem isClosing_endSession (responder : TaskId) (outcome : Except Error Unit) (w : World) :
    (endSession responder outcome w).2.isClosing = true := by
  unfold endSession
  split
  · rfl
  · exact isClosing_announce outcome w

/-- A session that closes goes on closing. -/
theorem isClosing_turn {stage : Stage} (h : stage.isClosing = true) (w : World) :
    (stage.turn w).2.isClosing = true := by
  cases stage with
  | dismissing responder outcome =>
    simp only [turn]
    split
    · rfl
    · exact isClosing_announce outcome w
  | flushing outcome => exact isClosing_flush outcome w
  | disconnecting task outcome =>
    simp only [turn]
    split
    · rfl
    · exact isClosing_closed outcome w
  | done outcome => rfl
  | _ => cases h

end Stage

namespace Visit

open Stage

theorem follows_raced {v : Visit} (hv : v.Concludes) (ha : v.answer? = none) (responder : TaskId)
    (result : Except Error (Except Error Unit)) (w : World) :
    Follows v (raced responder result w).2 := by
  have hclosing : ∀ {next : Stage}, next.isClosing = true → Follows v next := fun hn =>
    .closing hn fun a h => by
      rw [ha] at h
      cases h
  unfold raced
  split
  · exact .own hv (unused_of_none ha)
  · split
    · exact hclosing (isClosing_endSession _ _ _)
    · exact .own hv (unused_of_none ha)
  · exact .own hv (unused_of_none ha)
  · exact hclosing (isClosing_endSession _ _ _)

theorem follows_race {v : Visit} (ha : v.answer? = none) (responder : TaskId)
    (p : World × Poll (Except Error (Except Error Unit)) (Race Unit))
    (hv : ∀ result, p.2 = .ready result → v.Concludes) : Follows v (race responder p).2 := by
  unfold race
  split
  · exact follows_raced (hv _ rfl) ha responder _ _
  · exact .race ha

theorem follows_command {v : Visit} {rest : Script} {caller : CommandCaller}
    (hv : v.stage = .commanding rest caller) (hc : caller.InSession) (hr : rest.OnlyQuestions)
    (w : World) : Follows v (command caller rest w).2 := by
  have ha : v.answer? = none := by rw [answer?, hv]
  obtain ⟨responder, rfl⟩ : ∃ responder, caller = .inputLoop (.session responder) := by
    rcases caller with ⟨_ | _⟩ | _
    · exact ⟨_, rfl⟩
    · exact hc.elim
    · exact hc.elim
  cases rest with
  | finish => exact .own (by rw [Concludes, hv]; trivial) (unused_of_none ha)
  | fail e =>
    simp only [command, commandDone]
    split
    · refine .closing (isClosing_endSession _ _ _) fun a h => ?_
      rw [ha] at h
      cases h
    · exact .own (by rw [Concludes, hv]; trivial) (unused_of_none ha)
  | send o next => exact .command hc hr (unused_of_none ha)
  | look next => exact .command hc (hr _) (unused_of_none ha)
  | change setting value next =>
    simp only [command]
    split
    · exact .command hc (hr _) (unused_of_none ha)
    · exact .command hc (hr _) (unused_of_none ha)
  | forget next => exact .command hc hr (unused_of_none ha)
  | ask default next => exact .question hr rfl (by rw [Questions, hv]; trivial) (unused_of_none ha)
  | collect plain next => exact hr.elim

/-- An error that ends a session does so wherever a line is awaited. -/
theorem isClosing_useLine {use : LineUse} (hu : use.InSession) {e : Error}
    (he : e.endsSession = true) (w : World) : (useLine use (.error e) w).2.isClosing = true := by
  cases use with
  | input taker =>
    cases taker with
    | session responder => exact isClosing_endSession _ _ _
    | alone => exact hu.elim
  | answer default next caller =>
    rcases caller with ⟨_ | _⟩ | _
    · simp only [useLine, commandDone, he, if_true]
      exact isClosing_endSession _ _ _
    · exact hu.elim
    · exact hu.elim
  | _ => exact hu.elim

theorem lineOf_answer (a : Answer) :
    lineOf a.settings a.event.payload = if a.isExit then .error .sessionExit else .ok a.line := rfl

/-- A line of the session's own is a command line, or blank, or a prompt. -/
theorem follows_own_line {v : Visit} {responder : TaskId} {reply : SubscriptionId}
    (hv : v.stage = .awaitingLine reply (.input (.session responder))) {a : Answer}
    (ha : v.answer? = some a) (ho : a.own = true) (he : a.isExit = false) {w : World}
    (hr : w.shared.registry = Registry.ofCommands Command.builtins) :
    Follows v (useLine (.input (.session responder)) (.ok a.line) w).2 := by
  have hanswer : ∀ {p : Option String}, a.prompt? = p → ∀ x, v.answer? = some x →
      x.isExit = false ∧ x.prompt? = p := fun hp x hx => by
    cases ha.symm.trans hx
    exact ⟨he, hp⟩
  have hcommand := a.isCommand_eq
  simp only [useLine]
  split
  · next rest hrest =>
    rw [hrest] at hcommand
    have hnone : a.prompt? = none := by simp [Answer.prompt?, hcommand]
    exact .command trivial (hr ▸ Registry.onlyQuestions_lineScript rest) (hanswer hnone)
  · next hrest =>
    rw [hrest] at hcommand
    simp only [takePrompt]
    split
    · next hblank =>
      rw [Text.isEmpty_trim] at hblank
      have hnone : a.prompt? = none := by simp [Answer.prompt?, Answer.isBlank, hblank]
      refine .own ?_ (hanswer hnone)
      rw [Concludes, hv]
      exact ⟨a, ha, ho, he, hcommand, hblank⟩
    · next hblank =>
      rw [Text.isEmpty_trim, Bool.not_eq_true] at hblank
      exact .prompt ha he (by simp [Answer.prompt?, Answer.isBlank, hblank, ho, hcommand])

/-- An answer to a question is yes or no, or the question is asked again. -/
theorem follows_answer {v : Visit} {default : Bool} {next : Bool → Script} {caller : CommandCaller}
    {reply : SubscriptionId} (hv : v.stage = .awaitingLine reply (.answer default next caller))
    (hu : (LineUse.answer default next caller).InSession) {a : Answer} (ha : v.answer? = some a)
    (ho : a.own = false) (he : a.isExit = false) (w : World) :
    Follows v (useLine (.answer default next caller) (.ok a.line) w).2 := by
  have hunused : v.Unused := fun x hx => by
    cases ha.symm.trans hx
    exact ⟨he, by simp [Answer.prompt?, ho]⟩
  obtain ⟨responder, rfl⟩ : ∃ responder, caller = .inputLoop (.session responder) := by
    rcases caller with ⟨_ | _⟩ | _
    · exact ⟨_, rfl⟩
    · exact hu.elim
    · exact hu.elim
  simp only [useLine]
  split
  · exact .command trivial (hu _) hunused
  · next hneither =>
    refine .question hu rfl ?_ hunused
    rw [Questions, hv]
    exact ⟨a, ha, he, hneither⟩

/-- **What may come next** in a session with the built-in commands. -/
theorem follows_turn {stage : Stage} (h : stage.InSession) {w : World}
    (hr : w.shared.registry = Registry.ofCommands Command.builtins) :
    Follows ⟨stage, w⟩ (stage.turn w).2 := by
  have hclosing : ∀ {stage' : Stage}, stage = stage' → stage'.isClosing = true →
      Follows ⟨stage, w⟩ (stage.turn w).2 := by
    rintro _ rfl hs
    refine .closing (isClosing_turn hs w) fun a ha => ?_
    cases stage <;> first | cases ha | cases hs
  cases stage with
  | unstarted target =>
    obtain rfl : target = .session := h
    simp only [turn, start, startSession]
    split
    · exact .closing rfl fun a ha => by cases ha
    · exact .own trivial (unused_of_none rfl)
  | asking plain use => exact .asked rfl
  | awaitingLine reply use =>
    simp only [turn]
    split
    · next hpeek => exact .waiting rfl (by simp only [answer?, hpeek])
    · next hpeek =>
      refine .closing (isClosing_useLine h rfl _) fun a ha => ?_
      simp only [answer?, hpeek] at ha
      cases ha
    · next e hpeek =>
      let a : Answer := { own := use.isOwn, settings := w.shared.settings, event := e }
      have ha : answer? ⟨.awaitingLine reply use, w⟩ = some a := by simp only [answer?, hpeek, a]
      have hr' : ((w.taken reply).release reply).shared.registry = _ := hr
      change Follows _ (useLine use (lineOf a.settings a.event.payload) _).2
      rw [lineOf_answer]
      split
      · next he =>
        refine .closing (isClosing_useLine h rfl _) fun x hx => ?_
        cases ha.symm.trans hx
        exact he
      · next he =>
        rw [Bool.not_eq_true] at he
        cases use with
        | input taker =>
          cases taker with
          | session responder => exact follows_own_line rfl ha rfl he hr'
          | alone => exact h.elim
        | answer default next caller => exact follows_answer rfl h ha rfl he _
        | _ => exact h.elim
  | commanding rest caller => exact follows_command rfl h.1 h.2 w
  | prompting prompt responder => exact follows_race rfl responder _ fun result hp => ⟨result, hp⟩
  | responding work => exact h.elim
  | racing r responder => exact follows_race rfl responder _ fun result hp => ⟨result, hp⟩
  | _ => exact hclosing rfl rfl

theorem Follows.inSession {v : Visit} {next : Stage} (h : Follows v next) (hv : v.stage.InSession) :
    next.InSession := by
  cases h with
  | closing hn ha => cases next <;> trivial
  | own hv' ha => exact ⟨trivial, rfl⟩
  | question hu ho hv' ha => exact ⟨hu, by rw [ho]; rfl⟩
  | asked hs =>
    rw [hs] at hv
    exact hv.1
  | waiting hs ha =>
    rw [hs] at hv
    exact hv
  | command hc hr ha => exact ⟨hc, hr⟩
  | prompt ha he hp => trivial
  | race ha => trivial

theorem Unused.prompts {v : Visit} (h : v.Unused) : Dialogue.prompts v.answer?.toList = [] := by
  cases ha : v.answer? with
  | none => rfl
  | some a =>
    obtain ⟨he, hp⟩ := h a ha
    simp [Dialogue.prompts, he, hp]

/-- What is handed to the engine next is what the turn has read. -/
theorem Follows.pending {v : Visit} {next : Stage} (h : Follows v next) :
    next.pending?.toList = Dialogue.prompts v.answer?.toList := by
  cases h with
  | closing hn ha =>
    have hp : next.pending? = none := by cases next <;> first | rfl | cases hn
    rw [hp]
    cases hans : v.answer? with
    | none => rfl
    | some a => simp [Dialogue.prompts, ha a hans]
  | own hv ha => exact ha.prompts.symm
  | question hu ho hv ha => exact ha.prompts.symm
  | asked hv => rw [(unused_of_none (by rw [answer?, hv])).prompts]; rfl
  | waiting hv ha => exact (unused_of_none ha).prompts.symm
  | command hc hr ha => exact ha.prompts.symm
  | prompt ha he hp => simp [ha, Dialogue.prompts, he, hp, pending?]
  | race ha => exact (unused_of_none ha).prompts.symm

/-- An exit word ends the session. -/
theorem Follows.isClosing_of_exit {v : Visit} {next : Stage} (h : Follows v next) {a : Answer}
    (ha : v.answer? = some a) (he : a.isExit = true) : next.isClosing = true := by
  have hunused : ¬v.Unused := fun hu => by
    have := (hu a ha).1
    rw [he] at this
    cases this
  cases h with
  | closing hn ha' => exact hn
  | own hv hu => exact absurd hu hunused
  | question hu ho hv hu' => exact absurd hu' hunused
  | asked hv => exact absurd (unused_of_none (by rw [answer?, hv])) hunused
  | waiting hv hn => exact absurd (unused_of_none hn) hunused
  | command hc hr hu => exact absurd hu hunused
  | prompt ha' he' hp =>
    cases ha.symm.trans ha'
    rw [he] at he'
    cases he'
  | race hn => exact absurd (unused_of_none hn) hunused

end Visit

end Parley
