import Parley.Proofs.Session.Dialogue
import Parley.Proofs.Session.Loop
import Parley.Proofs.Session.Sending

/-!
# What a session says about lines

Of the requests for a line and the replies to them, a turn of a session publishes the request that
it makes and no other (`Stage.says_turn`), apart from what the engine publishes: a built-in command
sends to the conversation only (`Course.chats`). What it reads is what it is owed first, and its turns add
nothing to that (`Stage.owed_turn`).

A session runs a command from the line that calls it to the command's last step, its questions and
the answers to them included (`Stage.runsCommand`). All that time the answer that it has read last
is neither a prompt nor an exit word (`Course.spent_of_runsCommand`).
-/

set_option autoImplicit false

namespace Parley

/-! ## What is said about lines -/

/-- Requests for a line come on the channel, or replies to one of them. -/
def Channel.IsForLines (c : String) : Prop :=
  c = Channel.inputRequest ∨ ∃ id, c = Channel.reply Channel.inputRequest id

/-- The bus `b'` has come from `b`, and of the requests for a line and the replies to them exactly
these have been published. -/
def Bus.Utters (es : List (Event Message)) (b b' : Bus Message) : Prop :=
  ∃ acts, b' = b.run acts ∧
    ∀ c, Channel.IsForLines c → Event.on c (Bus.published acts) = Event.on c es

namespace Bus.Utters

variable {b b' b'' : Bus Message} {es es' : List (Event Message)}

theorem refl : Utters [] b b := ⟨[], rfl, fun _ _ => rfl⟩

theorem of_publishes (h : Publishes es' b b')
    (hes : ∀ c, Channel.IsForLines c → Event.on c es' = Event.on c es) : Utters es b b' := by
  obtain ⟨acts, rfl, -, rfl⟩ := h.acts
  exact ⟨acts, rfl, hes⟩

/-- Nothing is said about lines on other channels. -/
theorem of_silent (h : Publishes es b b') (hes : ∀ e ∈ es, ¬Channel.IsForLines e.channel) :
    Utters [] b b' := by
  refine of_publishes h fun c hc => List.filter_eq_nil_iff.2 fun e he hsame => ?_
  exact hes e he (eq_of_beq hsame ▸ hc)

end Bus.Utters

theorem Channel.not_isForLines {c : String} (hc : ':' ∉ c.toList) (hne : c ≠ Channel.inputRequest) :
    ¬Channel.IsForLines c := by
  rintro (h | ⟨id, h⟩)
  · exact hne h
  · exact reply_ne hc _ _ h.symm

theorem Channel.not_isForLines_default : ¬Channel.IsForLines Channel.default :=
  not_isForLines (by decide) (by decide)

theorem Channel.not_isForLines_exit : ¬Channel.IsForLines Channel.sessionExit :=
  not_isForLines (by decide) (by decide)

/-! ## Commands -/

namespace Stage

/-- A command is run, or a question of it is asked or awaits its answer. -/
def runsCommand : Stage → Bool
  | commanding _ _ => true
  | asking _ use | awaitingLine _ use => !use.isOwn
  | _ => false

/-- What is left of a command that is run sends to the conversation only. -/
def Chats : Stage → Prop
  | commanding rest _ => rest.Chats
  | asking _ (.answer _ next _) | awaitingLine _ (.answer _ next _) => ∀ b, (next b).Chats
  | _ => True

theorem runsCommand_of_isClosing {stage : Stage} (h : stage.isClosing = true) :
    stage.runsCommand = false := by
  cases stage <;> first | rfl | cases h

/-- What a turn of a session comes to: only the answer that has just been read can start a command,
and commands send to the conversation. -/
structure Minds (v : Visit) (next : Stage) : Prop where
  chats : next.Chats
  ran : next.runsCommand = true → v.stage.runsCommand = true ∨ v.answer? ≠ none

namespace Minds

variable {v : Visit} {next : Stage}

theorem of_idle (h : next.runsCommand = false) : Minds v next := by
  refine ⟨?_, fun hruns => ?_⟩
  · cases next with
    | commanding rest caller => cases h
    | asking plain use => cases use <;> trivial
    | awaitingLine reply use => cases use <;> trivial
    | _ => trivial
  · rw [h] at hruns
    cases hruns

theorem of_closing (h : next.isClosing = true) : Minds v next :=
  .of_idle (runsCommand_of_isClosing h)

end Minds

theorem runsCommand_takePrompt (responder : TaskId) (prompt : Except Error String) (w : World) :
    (takePrompt (.session responder) prompt w).2.runsCommand = false := by
  unfold takePrompt
  split
  · next h => cases h
  · split <;> rfl
  · exact runsCommand_of_isClosing (isClosing_endSession _ _ _)

theorem runsCommand_race (responder : TaskId)
    (p : World × Poll (Except Error (Except Error Unit)) (Race Unit)) :
    (race responder p).2.runsCommand = false := by
  unfold race raced
  split
  · split
    · rfl
    · split
      · exact runsCommand_of_isClosing (isClosing_endSession _ _ _)
      · rfl
    · rfl
    · exact runsCommand_of_isClosing (isClosing_endSession _ _ _)
  · rfl

theorem runsCommand_commandDone {caller : CommandCaller} (h : caller.InSession)
    (result : Except Error Unit) (w : World) :
    (commandDone caller result w).2.runsCommand = false := by
  obtain ⟨responder, rfl⟩ : ∃ responder, caller = .inputLoop (.session responder) := by
    rcases caller with ⟨_ | _⟩ | _
    · exact ⟨_, rfl⟩
    · exact h.elim
    · exact h.elim
  cases result with
  | ok u => rfl
  | error e =>
    simp only [commandDone]
    split
    · exact runsCommand_takePrompt responder _ w
    · rfl

/-- A step of a command. -/
theorem minds_command {rest : Script} {caller : CommandCaller} (hc : caller.InSession)
    (h : rest.Chats) (w : World) {v : Visit} (hv : v.stage = .commanding rest caller) :
    Minds v (command caller rest w).2 := by
  have hran : v.stage.runsCommand = true := by rw [hv]; rfl
  cases rest with
  | finish => exact .of_idle (runsCommand_commandDone hc _ w)
  | fail e => exact .of_idle (runsCommand_commandDone hc _ w)
  | send o next => exact ⟨h.2, fun _ => .inl hran⟩
  | look next => exact ⟨h _, fun _ => .inl hran⟩
  | change setting value next =>
    simp only [command]
    split
    · exact ⟨h _, fun _ => .inl hran⟩
    · exact ⟨h _, fun _ => .inl hran⟩
  | forget next => exact ⟨h, fun _ => .inl hran⟩
  | ask default next => exact ⟨h, fun _ => .inl hran⟩
  | collect plain next => exact h.elim

/-- A line that is used: it may call a command, and it may answer a question of one. -/
theorem minds_useLine {use : LineUse} {reply : SubscriptionId} (hu : use.InSession)
    (h : (Stage.awaitingLine reply use).Chats) (line : String) {w : World}
    (hr : w.shared.registry = Registry.ofCommands Command.builtins) {v : Visit}
    (ha : v.answer? ≠ none) : Minds v (useLine use (.ok line) w).2 := by
  cases use with
  | input taker =>
    cases taker with
    | session responder =>
      simp only [useLine]
      split
      · next rest _ => exact ⟨hr ▸ Registry.chats_lineScript rest, fun _ => .inr ha⟩
      · exact .of_idle (runsCommand_takePrompt _ _ w)
    | alone => exact hu.elim
  | answer default next caller =>
    simp only [useLine]
    split
    · exact ⟨h _, fun _ => .inr ha⟩
    · exact ⟨h, fun _ => .inr ha⟩
  | _ => exact hu.elim

/-- **A turn of a session**, as far as commands are concerned. -/
theorem minds_turn {stage : Stage} (hs : stage.InSession) (h : stage.Chats) {w : World}
    (hr : w.shared.registry = Registry.ofCommands Command.builtins) :
    Minds ⟨stage, w⟩ (stage.turn w).2 := by
  cases stage with
  | unstarted target =>
    obtain rfl : target = .session := hs
    simp only [turn, start, startSession]
    split
    · exact .of_idle rfl
    · exact .of_idle rfl
  | asking plain use => exact ⟨by cases use <;> exact h, .inl⟩
  | awaitingLine reply use =>
    simp only [turn]
    split
    · exact ⟨h, .inl⟩
    · exact .of_closing (Visit.isClosing_useLine hs rfl _)
    · next e hpeek =>
      have ha : Visit.answer? ⟨.awaitingLine reply use, w⟩ ≠ none := by
        simp only [Visit.answer?, hpeek]
        exact Option.some_ne_none _
      have hr' : ((w.taken reply).release reply).shared.registry = _ := hr
      unfold lineOf
      dsimp only
      split
      · exact .of_closing (Visit.isClosing_useLine hs rfl _)
      · exact minds_useLine hs h _ hr' ha
  | commanding rest caller => exact minds_command hs.1 h w rfl
  | prompting prompt responder => exact .of_idle (runsCommand_race responder _)
  | responding work => exact hs.elim
  | racing r responder => exact .of_idle (runsCommand_race responder _)
  | _ => exact .of_closing (isClosing_turn rfl w)

end Stage

/-- The world when the engine has done what it does in the turn. -/
def Visit.worked (v : Visit) : World :=
  match v.stage with
  | .prompting prompt _ =>
    let (r, w) := Race.start (v.world.shared.engine.respond v.world.shared.settings prompt) v.world
    (r.poll w).1
  | .racing r _ => (r.poll v.world).1
  | _ => v.world

namespace Stage

/-- A turn that requests no line says nothing about lines, apart from what its engine says. -/
theorem deeds_unrequested {stage : Stage} (hs : stage.InSession) (h : stage.Chats) {w : World}
    (hrequest : Visit.request? ⟨stage, w⟩ = none) (hchange : stage.change? = none) :
    Deeds (fun e => ¬Channel.IsForLines e.channel) (Visit.worked ⟨stage, w⟩) (stage.turn w).1 := by
  have hquiet : ∀ e : Event Message,
      e.channel = Channel.default ∨ e.channel = Channel.sessionExit →
        ¬Channel.IsForLines e.channel := by
    rintro e (he | he)
    · exact he ▸ Channel.not_isForLines_default
    · exact he ▸ Channel.not_isForLines_exit
  cases stage with
  | prompting prompt responder => exact deeds_race hquiet responder _
  | racing r responder => exact deeds_race hquiet responder _
  | asking plain use => cases hrequest
  | commanding rest caller =>
    refine deeds_turn_of hquiet hchange w (fun o ho => ?_) nofun
    cases rest with
    | send o' next =>
      cases ho
      exact h.1 ▸ Channel.not_isForLines_default
    | _ => cases ho
  | responding work => exact hs.elim
  | unstarted target =>
    obtain rfl : target = .session := hs
    exact deeds_startSession w
  | _ => exact deeds_turn_of hquiet hchange w nofun nofun

/-- **What a session says about lines** in a turn, apart from what its engine says: it requests one,
or says nothing. -/
theorem says_turn {stage : Stage} (hs : stage.InSession) (h : stage.Chats) (w : World) :
    let v : Visit := ⟨stage, w⟩
    ∃ es, Bus.Publishes es v.worked.bus v.led.1.bus ∧ ∀ c, Channel.IsForLines c →
      Event.on c es = Event.on c (v.request?.toList.map (⟨Channel.inputRequest, ·⟩)) := by
  intro v
  cases hchange : stage.change? with
  | some change =>
    obtain ⟨settings, hturn, -⟩ := settings_change hchange w
    have hnone : v.request? = none ∧ v.worked = w := by
      cases stage <;> first | exact ⟨rfl, rfl⟩ | cases hchange
    refine ⟨[], ?_, fun c _ => by rw [hnone.1]; rfl⟩
    rw [hnone.2, show v.led.1 = _ from hturn]
    exact .refl
  | none =>
    cases hrequest : v.request? with
    | none =>
      obtain ⟨es, hes, hp⟩ := (deeds_unrequested hs h hrequest hchange).publishes
      refine ⟨es, hes, fun c hc => List.filter_eq_nil_iff.2 fun e he hsame => ?_⟩
      exact hp e he (eq_of_beq hsame ▸ hc)
    | some m =>
      cases stage with
      | asking plain use =>
        cases hrequest
        exact ⟨_, (Bus.Publishes.send w _).trans (.listen _ _), fun _ _ => rfl⟩
      | _ => cases hrequest

/-- If no engine is at work, nothing else is said about lines in a turn. -/
theorem utters_turn {stage : Stage} (hs : stage.InSession) (h : stage.Chats)
    (hengages : stage.engages = false) (w : World) :
    Bus.Utters ((Visit.request? ⟨stage, w⟩).toList.map (⟨Channel.inputRequest, ·⟩)) w.bus
      (stage.turn w).1.bus := by
  obtain ⟨es, hes, hlines⟩ := says_turn hs h w
  have hworked : Visit.worked ⟨stage, w⟩ = w := by cases stage <;> first | rfl | cases hengages
  rw [hworked] at hes
  exact .of_publishes hes hlines

end Stage

/-! ## What is owed to a session -/

/-- An answer is read by a session that waits for it. -/
theorem Visit.of_answer {stage : Stage} {w : World} {a : Answer}
    (h : Visit.answer? ⟨stage, w⟩ = some a) : ∃ reply use, stage = .awaitingLine reply use ∧
      (w.bus.read reply).1 = .event a.event ∧ a.own = use.isOwn ∧
      a.settings = w.shared.settings := by
  cases stage with
  | awaitingLine reply use =>
    simp only [Visit.answer?] at h
    split at h
    · next hpeek =>
      cases h
      exact ⟨reply, use, rfl, hpeek, rfl, rfl⟩
    · cases h
  | _ => cases h

namespace Stage

/-- What a session will find on a channel for a reply: if it waits for one, what is owed to its
listener, and otherwise what waits. -/
def owed (stage : Stage) (b : Bus Message) (c : String) : List (Event Message) :=
  match stage with
  | awaitingLine reply _ => b.owed reply c
  | _ => Event.on c b.backlog

theorem owed_of_not_awaiting {stage : Stage} (h : stage.isAwaiting = false) {b : Bus Message}
    {c : String} : stage.owed b c = Event.on c b.backlog := by
  cases stage <;> first | rfl | cases h

theorem backlog_sublist_owed (stage : Stage) (b : Bus Message) (c : String) :
    (Event.on c b.backlog).Sublist (stage.owed b c) := by
  cases stage with
  | awaitingLine reply use => exact b.backlog_sublist_owed reply c
  | _ => exact List.Sublist.refl _

/-- Whatever others do, only what is published is added to what is owed. -/
theorem owed_run (stage : Stage) {b : Bus Message} (h : b.Agrees)
    (acts : List (Bus.Act Message)) (c : String) :
    (stage.owed (b.run acts) c).Sublist (stage.owed b c ++ Event.on c (Bus.published acts)) := by
  cases stage with
  | awaitingLine reply use => exact h.owed_run acts reply c
  | _ =>
    simp only [owed]
    rw [h.backlog_run]
    exact List.sublist_append_right _ _

/-- **What a session reads** is taken from the front of what is owed, and its turn adds nothing to
that if it publishes nothing on the channel. -/
theorem owed_turn {stage : Stage} (hs : stage.InSession) {w : World}
    (hr : w.shared.registry = Registry.ofCommands Command.builtins) (hw : w.bus.Agrees)
    {acts : List (Bus.Act Message)} (hacts : (stage.turn w).1.bus = w.bus.run acts) {c : String}
    (hc : Event.on c (Bus.published acts) = []) :
    (Event.on c ((Visit.answer? ⟨stage, w⟩).toList.map (·.event)) ++
      (stage.turn w).2.owed (stage.turn w).1.bus c).Sublist (stage.owed w.bus c) := by
  have hbacklog : (Event.on c (stage.turn w).1.bus.backlog).Sublist (Event.on c w.bus.backlog) := by
    have hrun := hw.backlog_run acts c
    rw [hc, List.append_nil] at hrun
    rw [hacts, hrun]
    exact List.sublist_append_right _ _
  have hsame : ∀ id, ((stage.turn w).1.bus.owed id c).Sublist (w.bus.owed id c) := fun id => by
    have hrun := hw.owed_run acts id c
    rwa [hc, List.append_nil, ← hacts] at hrun
  have hidle := hbacklog.trans (stage.backlog_sublist_owed w.bus c)
  have hfollows := Visit.follows_turn hs hr
  cases ha : Visit.answer? ⟨stage, w⟩ with
  | some a =>
    obtain ⟨reply, use, rfl, hread, -⟩ := Visit.of_answer ha
    have hnext : ((Stage.awaitingLine reply use).turn w).2.isAwaiting = false := by
      simp only [turn, show w.peek reply = .event a.event from hread]
      exact isAwaiting_useLine use _ _
    rw [owed_of_not_awaiting hnext]
    have howed := Bus.owed_of_read hread c
    have hrest : (Event.on c w.bus.backlog).Sublist ((w.bus.read reply).2.owed reply c) := by
      have hbus := (w.bus.read reply).2.backlog_sublist_owed reply c
      rwa [Bus.backlog, Bus.backend_read] at hbus
    change List.Sublist _ (w.bus.owed reply c)
    rw [howed]
    exact (hbacklog.trans hrest).append_left _
  | none =>
    rw [Option.toList_none, List.map_nil, Event.on_nil, List.nil_append]
    generalize hturn : (stage.turn w).2 = next at hfollows
    cases hfollows with
    | closing hn _ =>
      rw [owed_of_not_awaiting (isAwaiting_of_isClosing hn)]
      exact hidle
    | asked hv =>
      obtain rfl : stage = _ := hv
      cases hturn
      refine (hsame _).trans ?_
      obtain ⟨acts', hacts'⟩ := (calls_send w _).bus
      have hnew := hw.owed_of_new (hacts' ▸ hw.nextId_run acts') c
      exact hnew ▸ List.Sublist.refl _
    | waiting hv _ =>
      obtain rfl : stage = _ := hv
      exact hsame _
    | _ => exact hidle

end Stage

/-! ## Courses -/

namespace Course

variable {log : List Visit} {stage : Stage} {w : World}

/-- With the built-in commands, what is left of a command sends to the conversation only. -/
theorem chats (h : Course log stage w) : stage.Chats := by
  induction h with
  | start hb hr => trivial
  | turn h ih => exact (Stage.minds_turn h.sound.inSession ih h.sound.registry).chats
  | others h hw ih => exact ih

theorem channel_of_requests {log : List Visit} {m : Message} (h : m ∈ requests log) :
    m.channel = Channel.inputRequest := by
  obtain ⟨⟨stage, w⟩, -, hv⟩ := List.mem_filterMap.1 h
  cases stage with
  | asking plain use =>
    cases hv
    rfl
  | _ => cases hv

/-- Every turn has been taken in a session. -/
theorem inSession_of_mem (h : Course log stage w) {v : Visit} (hv : v ∈ log) :
    v.stage.InSession := by
  induction h with
  | start hb hr => exact absurd hv List.not_mem_nil
  | turn h ih =>
    rcases List.mem_append.1 hv with hv | hv
    · exact ih hv
    · exact List.mem_singleton.1 hv ▸ h.sound.inSession
  | others h hw ih => exact ih hv

/-- **While a command is run**, the answer that has been read last is neither a prompt nor an exit
word. -/
theorem spent_of_runsCommand (h : Course log stage w) (hruns : stage.runsCommand = true) :
    ∃ a, (answers log).getLast? = some a ∧ a.isExit = false ∧ a.prompt? = none := by
  induction h with
  | start hb hr => cases hruns
  | @turn log stage w h ih =>
    have hminds := Stage.minds_turn h.sound.inSession h.chats h.sound.registry
    rw [answers_concat]
    cases ha : Visit.answer? ⟨stage, w⟩ with
    | none =>
      rw [Option.toList_none, List.append_nil]
      exact ih ((hminds.ran hruns).resolve_right fun hsome => hsome ha)
    | some a =>
      rw [Option.toList_some, List.getLast?_concat]
      refine ⟨a, rfl, ?_⟩
      have hfollows := Visit.follows_turn h.sound.inSession h.sound.registry
      generalize (stage.turn w).2 = next at hfollows hruns
      cases hfollows with
      | closing hn _ =>
        rw [Stage.runsCommand_of_isClosing hn] at hruns
        cases hruns
      | own _ _ => cases hruns
      | question _ _ _ hunused => exact hunused a ha
      | asked hv => exact Visit.unused_of_none (by rw [Visit.answer?, hv]) a ha
      | waiting _ hnone => exact Visit.unused_of_none hnone a ha
      | command _ _ hunused => exact hunused a ha
      | prompt _ _ _ => cases hruns
      | race _ => cases hruns
  | others h hw ih => exact ih hruns

end Course
end Parley
