import Parley.Proofs.Terminal.Doing
import Parley.Proofs.Terminal.Showing

/-!
# When a terminal takes itself to be answered

A `Pairing` is a world with a session and a terminal in it, and a record of the turns of the one and
the doings of the other. It goes on (`Pairing.Step`) when either of them takes a turn, when the user
does something at the terminal, or when anybody else does anything but speak about lines, change the
commands, or move the two tasks to where they did not stand.

What the session asks, the terminal takes, and what the terminal replies, the session reads, one
after the other and each at most once (`Pairing.Inv`): what is still owed to either is what the
other has said and it has not taken yet. So the reply that the terminal has sent last is the one
that the session is to read next, and what the terminal makes of a line is what the session makes
of it (`Answer.RepliesTo.starts`). The terminal therefore takes itself to be answered when it is,
and interrupts no command (`Pairing.responding_matches`).
-/

set_option autoImplicit false

namespace Parley

open Exchange (Stands)
open Showing (Placed)

/-! ## What is made of a line -/

/-- The turn has the session hand the prompt to the engine. -/
def Visit.Hands (v : Visit) (prompt : String) : Prop :=
  ∃ responder, (v.stage.turn v.world).2 = .prompting prompt responder

/-- The turn of a session reads the answer, which is the terminal's reply. -/
structure Visit.Reads (v : Visit) (a : Answer) (r : Terminal.Reply) : Prop where
  inSession : v.stage.InSession
  answer : v.answer? = some a
  event : a.event = r.event
  repliesTo : a.RepliesTo r.request

/-- A request is plain if its answer is not the session's own. -/
theorem Answer.RepliesTo.isPlain {a : Answer} {request : Message} (h : a.RepliesTo request) :
    Terminal.isPlain request = !a.own := by
  rw [Terminal.isPlain, h.2]
  rfl

/-- **The two classifications of a line agree**: the terminal takes itself to be answered exactly if
the answer is a prompt. -/
theorem Answer.RepliesTo.starts {a : Answer} {request : Message} (h : a.RepliesTo request) :
    Terminal.startsResponse request a.line = a.prompt?.isSome := by
  have hblank : a.isBlank = (Text.trimStartChars a.line.toList).isEmpty := by
    rw [Bool.eq_iff_iff, Answer.isBlank, List.all_eq_true, List.isEmpty_iff,
      Text.trimStartChars_eq_nil]
  have hcommand : a.isCommand = ((Text.trimStartChars a.line.toList).head? == some sigil) := by
    rw [Answer.isCommand, Text.trimStart, String.toList_ofList]
  rw [Terminal.startsResponse, h.isPlain, Bool.not_not, Answer.prompt?, hblank, hcommand]
  cases a.own with
  | false => rfl
  | true =>
    cases Text.trimStartChars a.line.toList with
    | nil => simp
    | cons c cs => by_cases hc : c = sigil <;> simp [hc]

theorem Answer.line_of_prompt {a : Answer} {prompt : String} (h : a.prompt? = some prompt) :
    a.line = prompt := by
  unfold Answer.prompt? at h
  split at h
  · exact Option.some.inj h
  · cases h

/-- **What a session does with an answer**: an exit word has it close; else it hands a prompt to the
engine, and nothing else. -/
theorem Visit.hands_iff {v : Visit} (hv : v.stage.InSession) {a : Answer}
    (ha : v.answer? = some a) :
    (a.isExit = true → (v.stage.turn v.world).2.isClosing = true) ∧
      ∀ prompt, v.Hands prompt ↔ a.isExit = false ∧ a.prompt? = some prompt := by
  obtain ⟨stage, w⟩ := v
  obtain ⟨reply, use, hstage, hread, hown, hsettings⟩ := Visit.of_answer ha
  obtain rfl : stage = _ := hstage
  have hturn : (Stage.awaitingLine reply use).turn w = Stage.useLine use
      (if a.isExit then .error .sessionExit else .ok a.line) ((w.taken reply).release reply) := by
    rw [← Visit.lineOf_answer, hsettings]
    simp only [Stage.turn, show w.peek reply = .event a.event from hread]
  simp only [Visit.Hands, hturn]
  cases hexit : a.isExit with
  | true =>
    have hclosing := Visit.isClosing_useLine hv (e := .sessionExit) rfl
      ((w.taken reply).release reply)
    refine ⟨fun _ => hclosing, fun prompt => ⟨fun hnext => ?_, fun hnot => ?_⟩⟩
    · obtain ⟨responder, hnext⟩ := hnext
      rw [if_pos rfl] at hnext
      rw [hnext] at hclosing
      cases hclosing
    · cases hnot.1
  | false =>
    refine ⟨fun hnot => absurd hnot Bool.false_ne_true, fun prompt => ?_⟩
    rw [if_neg Bool.false_ne_true]
    have hcommand := a.isCommand_eq
    cases use with
    | input taker =>
      cases taker with
      | session responder =>
        simp only [Stage.useLine]
        split
        · next rest hrest =>
          rw [hrest] at hcommand
          simp [Answer.prompt?, hcommand]
        · next hrest =>
          rw [hrest] at hcommand
          simp only [Stage.takePrompt, Text.isEmpty_trim]
          split
          · next hblank => simp [Stage.nextLine, Answer.prompt?, Answer.isBlank, hblank]
          · next hblank =>
            simp [Answer.prompt?, Answer.isBlank, hblank, hown, LineUse.isOwn, hcommand]
      | alone => exact hv.elim
    | answer default next caller =>
      have hnone : a.prompt? = none := by simp [Answer.prompt?, hown, LineUse.isOwn]
      simp only [Stage.useLine, Stage.askAgain, hnone]
      split <;> simp
    | _ => exact hv.elim

structure Pairing where
  world : World
  /-- The turns of the session. -/
  log : List Visit := []
  /-- The doings of the terminal. -/
  doings : List Terminal.Doing := []

namespace Pairing

/-- A step, where `s` is the task of the session and `d` that of the terminal. The engine does not
speak about lines. -/
inductive Step (s d : TaskId) (x : Pairing) : Pairing → Prop
  | session {stage : Stage} {rest : List TaskId} (h : x.world.ready = s :: rest)
    (hs : Stands x.world s (.session stage))
    (hb : stage.engages = true → Bus.Utters [] x.world.bus (x.world.step program).bus) :
    Step s d x { x with
      world := x.world.step program
      log := x.log ++ [⟨stage, { x.world with ready := rest }⟩] }
  | terminal {t : Terminal} {rest : List TaskId} (h : x.world.ready = d :: rest)
    (ht : Stands x.world d (.terminal t)) :
    Step s d x { x with
      world := x.world.step program
      doings := x.doings ++ (t.doing? { x.world with ready := rest }).toList }
  | user {t t' : Terminal} (ht : Stands x.world d (.terminal t)) (h : Sitting.Touches t t')
    (signal : Signal) :
    Step s d x { x with world := (x.world.place d (.terminal t')).signal signal }
  | others {w : World} (hb : Bus.Utters [] x.world.bus w.bus)
    (hr : w.shared.registry = x.world.shared.registry)
    (hs : ∀ stage, Stands w s (.session stage) → Stands x.world s (.session stage))
    (ht : ∀ t, Placed w d t → Placed x.world d t) :
    Step s d x { x with world := w }

/-- What a pairing comes to of a session with the built-in commands and a terminal that listens to
its requests, both at their start. Nothing has been said about lines before. -/
inductive Reached (s d : TaskId) : Pairing → Prop
  | start {w : World} {t : Terminal} (hb : Bus.Utters [] {} w.bus)
    (hr : w.shared.registry = Registry.ofCommands Command.builtins)
    (hs : Stands w s (.session (.unstarted .session))) (ht : Stands w d (.terminal t))
    (hrequests : w.bus.Granted t.requests (.channel Channel.inputRequest))
    (hwatch : t.watch = .all) (hpending : t.pending = none) (hresponding : t.responding = false) :
    Reached s d { world := w }
  | step {x y : Pairing} (hx : Reached s d x) (h : Step s d x y) : Reached s d y

/-- The requests that the terminal has taken. -/
def taken (x : Pairing) : List Message := x.doings.filterMap Terminal.Doing.opens?

/-- The replies that the terminal has sent. -/
def replies (x : Pairing) : List Terminal.Reply := x.doings.filterMap Terminal.Doing.reply?

/-- What holds of the terminal where it stands: it has taken the first of the requests that the
session has made, and is owed others of them. -/
structure Waits (x : Pairing) (t : Terminal) : Prop where
  left : t.Left x.doings.getLast?
  granted : x.world.bus.Granted t.requests (.channel Channel.inputRequest)
  owed : (x.taken ++ (x.world.bus.owed t.requests Channel.inputRequest).map (·.payload)).Sublist
    (Course.requests x.log)

/-- What holds of every pairing, with the session at the stage or gone. -/
structure Inv (s d : TaskId) (x : Pairing) (stage : Stage) : Prop where
  course : Course x.log stage x.world
  session : ∀ stage', Stands x.world s (.session stage') → stage' = stage
  terminal : ∀ t, Placed x.world d t → x.Waits t
  inTurn : Terminal.InTurn x.doings
  taken : x.taken <+: Course.requests x.log
  answered : (Course.answers x.log).map (·.event) <+: x.replies.map Terminal.Reply.event
  owed : ∀ id, (stage.owed x.world.bus (Channel.reply Channel.inputRequest id)).Sublist
    (Event.on (Channel.reply Channel.inputRequest id)
      ((x.replies.drop (Course.answers x.log).length).map Terminal.Reply.event))

variable {s d : TaskId} {x y : Pairing} {stage : Stage} {t : Terminal}

theorem not_mem_inputRequest : ':' ∉ Channel.inputRequest.toList := by decide

/-! ## What others do -/

theorem Waits.after (h : x.Waits t) (hx : x.world.bus.Agrees) {requests : List Message}
    (hbus : Bus.Utters (requests.map (⟨Channel.inputRequest, ·⟩)) x.world.bus y.world.bus)
    (hlog : Course.requests y.log = Course.requests x.log ++ requests)
    (hdoings : y.doings = x.doings) : y.Waits t := by
  obtain ⟨acts, hacts, hpublished⟩ := hbus
  refine ⟨hdoings ▸ h.left, hacts ▸ hx.granted_run h.granted acts, ?_⟩
  have howed := (hx.owed_run acts t.requests Channel.inputRequest).map (·.payload)
  have hrequests : (Event.on Channel.inputRequest (Bus.published acts)).map (·.payload) =
      requests := by
    rw [hpublished _ (.inl rfl), Event.on, List.filter_eq_self.2, List.map_map]
    · exact List.map_id requests
    · intro e he
      obtain ⟨m, -, rfl⟩ := List.mem_map.1 he
      exact beq_self_eq_true _
  rw [List.map_append, hrequests] at howed
  rw [Pairing.taken, hdoings, hacts, hlog]
  refine (howed.append_left _).trans ?_
  rw [← List.append_assoc]
  exact h.owed.append_right requests

/-- What is owed to the session when more has been replied. -/
theorem Inv.owed_after (hx : Inv s d x stage) {more : List Terminal.Reply}
    (hbus : Bus.Utters (more.map Terminal.Reply.event) x.world.bus y.world.bus)
    (hlog : y.log = x.log) (hreplies : y.replies = x.replies ++ more) (id : MessageId) :
    (stage.owed y.world.bus (Channel.reply Channel.inputRequest id)).Sublist
      (Event.on (Channel.reply Channel.inputRequest id)
        ((y.replies.drop (Course.answers y.log).length).map Terminal.Reply.event)) := by
  obtain ⟨acts, hacts, hpublished⟩ := hbus
  obtain ⟨acts₀, hstart⟩ := hx.course.sound.bus
  have hagrees : x.world.bus.Agrees := hstart ▸ Bus.agrees_run acts₀
  have hlength := hx.answered.length_le
  rw [List.length_map, List.length_map] at hlength
  have howed := stage.owed_run hagrees acts (Channel.reply Channel.inputRequest id)
  rw [hpublished _ (.inr ⟨id, rfl⟩), ← hacts] at howed
  rw [hlog, hreplies, List.drop_append_of_le_length hlength, List.map_append, Event.on_append]
  exact howed.trans ((hx.owed id).append_right _)

/-- What is known stays known when neither of the two has had a turn. -/
theorem Inv.frame (hx : Inv s d x stage) (hbus : Bus.Utters [] x.world.bus y.world.bus)
    (hr : y.world.shared.registry = x.world.shared.registry) (hlog : y.log = x.log)
    (hdoings : y.doings = x.doings)
    (hs : ∀ stage, Stands y.world s (.session stage) → Stands x.world s (.session stage))
    (ht : ∀ t, Placed y.world d t → x.Waits t) : Inv s d y stage := by
  obtain ⟨acts₀, hstart⟩ := hx.course.sound.bus
  have hagrees : x.world.bus.Agrees := hstart ▸ Bus.agrees_run acts₀
  have hcalls : Calls x.world y.world := by
    obtain ⟨acts, hacts, -⟩ := hbus
    exact ⟨⟨acts, hacts⟩, hr⟩
  refine ⟨hlog ▸ hx.course.others hcalls, fun stage' hstage => hx.session stage' (hs stage' hstage),
    fun t hplaced => ?_, hdoings ▸ hx.inTurn, ?_, ?_, ?_⟩
  · have hnothing : Bus.Utters (([] : List Message).map (⟨Channel.inputRequest, ·⟩)) x.world.bus
        y.world.bus := hbus
    refine (ht t hplaced).after hagrees hnothing ?_ hdoings
    rw [hlog, List.append_nil]
  · rw [Pairing.taken, hdoings, hlog]
    exact hx.taken
  · rw [Pairing.replies, hdoings, hlog]
    exact hx.answered
  · have hnothing : Bus.Utters (([] : List Terminal.Reply).map Terminal.Reply.event) x.world.bus
        y.world.bus := hbus
    refine hx.owed_after hnothing hlog ?_
    rw [Pairing.replies, hdoings, List.append_nil]
    rfl

theorem Waits.touches {t' : Terminal} (h : x.Waits t) (ht : Sitting.Touches t t') : x.Waits t' := by
  cases ht <;> exact ⟨⟨h.left.opened, h.left.pending, h.left.responding⟩, h.granted, h.owed⟩

/-! ## Turns of the session -/

/-- At most one request has not been replied to yet, and at most one reply has not been read. -/
theorem Inv.counts (hx : Inv s d x stage) :
    (Course.answers x.log).length ≤ x.replies.length ∧
      x.replies.length ≤ (Course.requests x.log).length ∧
      (Course.requests x.log).length ≤ (Course.answers x.log).length + 1 := by
  have hanswered := hx.answered.length_le
  have htaken := hx.taken.length_le
  rw [List.length_map, List.length_map] at hanswered
  rw [Pairing.taken, hx.inTurn.taken, List.length_append, List.length_map] at htaken
  exact ⟨hanswered, Nat.le_trans (Nat.le_add_right _ _) htaken, hx.course.counts.2⟩

/-- The session reads the one reply that it has not read yet. -/
theorem Inv.reads (hx : Inv s d x stage) {w : World} (hw : w.bus = x.world.bus) {a : Answer}
    (ha : Visit.answer? ⟨stage, w⟩ = some a) :
    ∃ r, x.replies.drop (Course.answers x.log).length = [r] ∧ a.event = r.event := by
  obtain ⟨reply, use, rfl, hread, -⟩ := Visit.of_answer ha
  obtain ⟨acts, hacts⟩ := hx.course.sound.bus
  obtain ⟨earlier, last, hsplit, -, hgranted, -⟩ := hx.course.sound.linked
  have hchannel : last.channel = Channel.inputRequest :=
    Course.channel_of_requests (hsplit ▸ List.mem_append_right _ List.mem_cons_self)
  rw [hw] at hread
  have hcovers := eq_of_beq (Bus.covers_of_read (hacts ▸ Bus.addressed_run acts) hgranted hread)
  have howed := hx.owed last.id
  have hevent : a.event ∈ Event.on (Channel.reply Channel.inputRequest last.id)
      ((x.replies.drop (Course.answers x.log).length).map Terminal.Reply.event) := by
    refine howed.subset ?_
    change a.event ∈ x.world.bus.owed reply _
    rw [Bus.owed_of_read hread]
    refine List.mem_append_left _ (List.mem_filter.2 ⟨List.mem_singleton_self _, ?_⟩)
    rw [← hcovers, ← hchannel]
    exact beq_self_eq_true _
  obtain ⟨r, hr, hsame⟩ := List.mem_map.1 (List.mem_filter.1 hevent).1
  have hlength : (x.replies.drop (Course.answers x.log).length).length ≤ 1 := by
    have hcounts := hx.counts
    rw [List.length_drop]
    omega
  obtain ⟨r', hr'⟩ := List.length_eq_one_iff.1 (Nat.le_antisymm hlength (List.length_pos_of_mem hr))
  rw [hr'] at hr
  obtain rfl := List.mem_singleton.1 hr
  exact ⟨r, hr', hsame.symm⟩

/-- The session has read the reply, if one has come, and is owed what is left. -/
theorem Inv.read (hx : Inv s d x stage) {w : World} (hw : w.bus = x.world.bus)
    (hr : w.shared.registry = x.world.shared.registry)
    {acts : List (Bus.Act Message)} (hacts : (stage.turn w).1.bus = w.bus.run acts)
    (hpublished : ∀ id, Event.on (Channel.reply Channel.inputRequest id) (Bus.published acts) = [])
    {answers : List Answer}
    (hanswers : answers = Course.answers x.log ++ (Visit.answer? ⟨stage, w⟩).toList) :
    answers.map (·.event) <+: x.replies.map Terminal.Reply.event ∧
      ∀ id, ((stage.turn w).2.owed (stage.turn w).1.bus
        (Channel.reply Channel.inputRequest id)).Sublist
          (Event.on (Channel.reply Channel.inputRequest id)
            ((x.replies.drop answers.length).map Terminal.Reply.event)) := by
  obtain ⟨acts₀, hstart⟩ := hx.course.sound.bus
  have hagrees : w.bus.Agrees := by
    rw [hw, hstart]
    exact Bus.agrees_run acts₀
  have howed := fun id => (Stage.owed_turn hx.course.sound.inSession
    (hr.trans hx.course.sound.registry) hagrees hacts (hpublished id)).trans
      (hw.symm ▸ hx.owed id : (stage.owed w.bus _).Sublist _)
  cases ha : Visit.answer? ⟨stage, w⟩ with
  | none =>
    rw [ha, Option.toList_none, List.append_nil] at hanswers
    rw [ha] at howed
    exact hanswers ▸ ⟨hx.answered, howed⟩
  | some a =>
    obtain ⟨r, hdrop, hevent⟩ := hx.reads hw ha
    rw [ha, Option.toList_some] at hanswers howed
    refine ⟨?_, fun id => ?_⟩
    · have hearlier := List.prefix_iff_eq_take.1 hx.answered
      rw [List.length_map, ← List.map_take] at hearlier
      have hall : answers.map (·.event) = x.replies.map Terminal.Reply.event := by
        rw [hanswers, List.map_append, hearlier, List.map_singleton, hevent,
          ← List.map_singleton (f := Terminal.Reply.event), ← hdrop, ← List.map_append,
          List.take_append_drop]
      exact hall ▸ List.prefix_refl _
    · have hleft := howed id
      rw [hdrop] at hleft
      change List.Sublist (Event.on _ [a.event] ++ _) (Event.on _ [r.event]) at hleft
      rw [hevent] at hleft
      have hlength := hleft.length_le
      rw [List.length_append] at hlength
      have hnil : (stage.turn w).2.owed (stage.turn w).1.bus
          (Channel.reply Channel.inputRequest id) = [] :=
        List.eq_nil_of_length_eq_zero (by omega)
      exact hnil ▸ List.nil_sublist _

theorem Inv.step_session (hx : Inv s d x stage) {rest : List TaskId}
    (h : x.world.ready = s :: rest) (hs : Stands x.world s (.session stage))
    (hb : stage.engages = true → Bus.Utters [] x.world.bus (x.world.step program).bus) :
    Inv s d { x with
      world := x.world.step program
      log := x.log ++ [⟨stage, { x.world with ready := rest }⟩] }
      (stage.turn { x.world with ready := rest }).2 := by
  let v : Visit := ⟨stage, { x.world with ready := rest }⟩
  have hstep : x.world.step program = Schedule.settleTurn s (sessionTurn (stage.turn v.world)) :=
    Schedule.step_own h hs
  obtain ⟨hbus, -, htasks⟩ :=
    Schedule.settleTurn_spec (sessionTurn_progress (stage.turn v.world)) s
  rw [← hstep] at hbus htasks
  change _ = (stage.turn v.world).1.bus at hbus
  obtain ⟨acts₀, hstart⟩ := hx.course.sound.bus
  have hagrees : x.world.bus.Agrees := hstart ▸ Bus.agrees_run acts₀
  have hutters : Bus.Utters (v.request?.toList.map (⟨Channel.inputRequest, ·⟩)) x.world.bus
      (x.world.step program).bus := by
    cases hengages : stage.engages with
    | true =>
      have hnone : v.request? = none := by cases stage <;> first | rfl | cases hengages
      rw [hnone]
      exact hb hengages
    | false =>
      exact hbus ▸
        Stage.utters_turn hx.course.sound.inSession hx.course.chats hengages v.world
  have hcourse := hx.course.step_own h hs
  have hrequests := Course.requests_concat x.log v
  obtain ⟨acts, hacts, hpublished⟩ := id hutters
  have hsilent : ∀ id,
      Event.on (Channel.reply Channel.inputRequest id) (Bus.published acts) = [] := by
    intro id
    rw [hpublished _ (.inr ⟨id, rfl⟩)]
    refine List.filter_eq_nil_iff.2 fun e he => ?_
    obtain ⟨m, -, rfl⟩ := List.mem_map.1 he
    exact fun hsame => Channel.reply_ne not_mem_inputRequest _ _ (eq_of_beq hsame).symm
  obtain ⟨hanswered, howed⟩ := hx.read (w := v.world) rfl rfl (hbus.symm.trans hacts) hsilent
    (Course.answers_concat x.log v)
  refine ⟨hcourse, fun stage' hstage' => ?_, fun t ⟨c, hplaced⟩ => ?_, hx.inTurn, ?_, hanswered,
    hbus ▸ howed⟩
  · have hplaced := (htasks s).symm.trans hstage'
    cases Schedule.eq_of_placed hplaced
    rfl
  · rw [htasks] at hplaced
    have hplaced' : Placed x.world d t :=
      stage.terminals_turn v.world (Schedule.task?_of_place hplaced (by simp))
    exact (hx.terminal t hplaced').after hagrees hutters hrequests rfl
  · exact hx.taken.trans (hrequests ▸ List.prefix_append _ _)

/-! ## Turns of the terminal -/

theorem filterMap_append_toList {β γ : Type} (f : β → Option γ) (xs : List β) (o : Option β) :
    (xs ++ o.toList).filterMap f = xs.filterMap f ++ (o.bind f).toList := by
  cases o with
  | none => simp
  | some x => exact Course.filterMap_concat f xs x

/-- The request that the terminal takes is the one that the session waits with. -/
theorem Inv.taken_prefix (hx : Inv s d x stage) (hleft : t.Left x.doings.getLast?) {w : World}
    {taken rest : List Message} (htaken : taken = x.taken ++ (t.taken? w).toList)
    (howed : (taken ++ rest).Sublist (Course.requests x.log)) :
    taken <+: Course.requests x.log := by
  cases hrequest : t.taken? w with
  | none =>
    rw [hrequest, Option.toList_none, List.append_nil] at htaken
    exact htaken ▸ hx.taken
  | some request =>
    obtain ⟨doing, hdoing, hopens⟩ :=
      Option.bind_eq_some_iff.1 ((t.doing?_opens w).trans hrequest)
    have hclosed : x.doings.getLast?.bind Terminal.Doing.opens? = none := by
      have hfollows := hleft.follows hdoing
      cases hfollows with
      | takes h => exact h
      | replies _ _ => cases hopens
      | interrupts h _ => exact h
    have hcounts := hx.counts
    have hlength : x.taken.length = x.replies.length := by
      rw [Pairing.taken, hx.inTurn.taken, hclosed, Option.toList_none, List.append_nil,
        List.length_map]
      rfl
    have hall := howed.eq_of_length_le (by
      rw [htaken, hrequest, List.length_append, List.length_append, Option.toList_some,
        List.length_singleton]
      omega)
    exact ⟨rest, hall⟩

theorem Inv.step_terminal (hx : Inv s d x stage) {t : Terminal} {rest : List TaskId}
    (h : x.world.ready = d :: rest) (ht : Stands x.world d (.terminal t)) :
    Inv s d { x with
      world := x.world.step program
      doings := x.doings ++ (t.doing? { x.world with ready := rest }).toList } stage := by
  let w : World := { x.world with ready := rest }
  let y : Pairing := { x with
    world := x.world.step program
    doings := x.doings ++ (t.doing? w).toList }
  have hwaits := hx.terminal t ⟨false, ht⟩
  obtain ⟨t', hgoes, hdoes, hmoves⟩ := (t.does_turn w hwaits.left).and (t.moves_turn w)
  have hstep : x.world.step program = Schedule.settleTurn d (t.turn w) := Schedule.step_own h ht
  obtain ⟨hbus, -, htasks⟩ := Schedule.settleTurn_spec hgoes d
  rw [← hstep] at hbus htasks
  obtain ⟨acts₀, hstart⟩ := hx.course.sound.bus
  have hagrees : w.bus.Agrees := hstart ▸ Bus.agrees_run acts₀
  have haddressed : w.bus.Addressed := hstart ▸ Bus.addressed_run acts₀
  obtain ⟨acts, hacts, hpublished⟩ := hdoes.utters
  have hsilent : Event.on Channel.inputRequest (Bus.published acts) = [] := by
    rw [hpublished _ (.inl rfl)]
    refine List.filter_eq_nil_iff.2 fun e he => ?_
    obtain ⟨r, -, rfl⟩ := List.mem_map.1 he
    exact fun hsame => Channel.reply_ne not_mem_inputRequest _ _ (eq_of_beq hsame)
  have htaken : y.taken = x.taken ++ (t.taken? w).toList := by
    rw [← t.doing?_opens w]
    exact filterMap_append_toList _ _ _
  have hreplies : y.replies = x.replies ++ ((t.doing? w).bind Terminal.Doing.reply?).toList :=
    filterMap_append_toList _ _ _
  have howed : (y.taken ++ (y.world.bus.owed t'.requests Channel.inputRequest).map
      (·.payload)).Sublist (Course.requests x.log) := by
    have hleft := Terminal.owed_moves hmoves hagrees haddressed hwaits.granted hacts hsilent
    rw [htaken, List.append_assoc, hmoves.requests, hbus]
    exact (hleft.append_left _).trans hwaits.owed
  refine ⟨hx.course.step_other, fun stage' hstage => ?_, fun t'' ⟨c, hplaced⟩ => ?_, ?_, ?_, ?_,
    hx.owed_after (hbus ▸ hdoes.utters) rfl hreplies⟩
  · rw [Stands, htasks] at hstage
    have hstood := Schedule.task?_of_place hstage (by simp)
    rw [Schedule.task?, hmoves.tasks] at hstood
    exact hx.session stage' hstood
  · rw [htasks] at hplaced
    cases Schedule.eq_of_placed hplaced
    refine ⟨?_, ?_, howed⟩
    · have hlast : y.doings.getLast? = (t.doing? w).or x.doings.getLast? := by
        rw [List.getLast?_append]
        cases t.doing? w <;> rfl
      exact hlast ▸ hdoes.left
    · rw [hmoves.requests, hbus, hacts]
      exact hagrees.granted_run hwaits.granted acts
  · cases hd : t.doing? w with
    | none =>
      rw [Option.toList_none, List.append_nil]
      exact hx.inTurn
    | some doing => exact .concat hx.inTurn (hwaits.left.follows hd)
  · exact hx.taken_prefix hwaits.left htaken howed
  · rw [hreplies, List.map_append]
    exact hx.answered.trans (List.prefix_append _ _)

/-! ## All pairings -/

theorem inv_start {w : World} {t : Terminal} (hb : Bus.Utters [] {} w.bus)
    (hr : w.shared.registry = Registry.ofCommands Command.builtins)
    (hs : Stands w s (.session (.unstarted .session))) (ht : Stands w d (.terminal t))
    (hrequests : w.bus.Granted t.requests (.channel Channel.inputRequest)) (hwatch : t.watch = .all)
    (hpending : t.pending = none) (hresponding : t.responding = false) :
    Inv s d { world := w } (.unstarted .session) := by
  obtain ⟨acts, hacts, hpublished⟩ := hb
  have howed : ∀ id c, Channel.IsForLines c → w.bus.owed id c = [] := fun id c hc => by
    have hrun := Bus.agrees_empty.owed_run acts id c
    rw [hpublished c hc, ← hacts] at hrun
    exact List.sublist_nil.1 hrun
  refine ⟨.start ⟨acts, hacts⟩ hr, fun stage hstage => ?_, fun t' ⟨c, hplaced⟩ => ?_, .nil,
    List.nil_prefix, List.nil_prefix, fun id => ?_⟩
  · cases hs.symm.trans hstage
    rfl
  · cases ht.symm.trans hplaced
    refine ⟨⟨fun _ => (Terminal.open?_of_all hwatch).trans hpending, fun request hrequest => ?_,
      hresponding⟩, hrequests, ?_⟩
    · cases hpending.symm.trans hrequest
    · rw [howed _ _ (.inl rfl)]
      exact List.Sublist.refl _
  · have hbacklog := w.bus.backlog_sublist_owed 0 (Channel.reply Channel.inputRequest id)
    rwa [howed _ _ (.inr ⟨id, rfl⟩)] at hbacklog

theorem inv_of_reached (h : Reached s d x) : ∃ stage, Inv s d x stage := by
  induction h with
  | start hb hr hs ht hrequests hwatch hpending hresponding =>
    exact ⟨_, inv_start hb hr hs ht hrequests hwatch hpending hresponding⟩
  | @step x y _ h ih =>
    obtain ⟨stage, hx⟩ := ih
    cases h with
    | session h hs hb =>
      obtain rfl := hx.session _ hs
      exact ⟨_, hx.step_session h hs hb⟩
    | terminal h ht => exact ⟨stage, hx.step_terminal h ht⟩
    | @user t t' ht h signal =>
      have hroused := Schedule.roused_signal (x.world.place d (.terminal t')) signal
      have hbus : Bus.Utters [] x.world.bus
          ((x.world.place d (.terminal t')).signal signal).bus := by
        rw [hroused.bus]
        exact .refl
      refine ⟨stage, hx.frame hbus ?_ rfl rfl (fun stage' hstage => ?_) fun t'' ⟨c, hplaced⟩ => ?_⟩
      · rw [hroused.same]
        rfl
      · rw [Stands, hroused.task?] at hstage
        exact Schedule.task?_of_place hstage (by simp)
      · rw [hroused.task?] at hplaced
        cases Schedule.eq_of_placed hplaced
        exact (hx.terminal t ⟨false, ht⟩).touches h
    | others hb hr hs ht =>
      exact ⟨stage, hx.frame hb hr rfl rfl hs fun t hplaced => hx.terminal t (ht t hplaced)⟩

/-! ## The flag -/

theorem getElem?_of_prefix {β : Type} {xs ys : List β} (h : xs <+: ys) {k : Nat} {x : β}
    (hx : xs[k]? = some x) : ys[k]? = some x := by
  obtain ⟨rest, rfl⟩ := h
  rwa [List.getElem?_append_left (List.getElem?_eq_some_iff.1 hx).1]

/-- The requests that have been replied to are the first that the session has made. -/
theorem Inv.replied (hx : Inv s d x stage) :
    x.replies.map (·.request) <+: Course.requests x.log := by
  refine .trans ?_ hx.taken
  rw [Pairing.taken, hx.inTurn.taken]
  exact List.prefix_append _ _

/-- Each answer is the reply in its place, and that is to the request in this place. -/
theorem Inv.linked (hx : Inv s d x stage) {k : Nat} {a : Answer}
    (ha : (Course.answers x.log)[k]? = some a) :
    ∃ r, x.replies[k]? = some r ∧ a.event = r.event ∧ a.RepliesTo r.request := by
  have hevent : (x.replies.map Terminal.Reply.event)[k]? = some a.event :=
    getElem?_of_prefix hx.answered (by rw [List.getElem?_map, ha]; rfl)
  rw [List.getElem?_map] at hevent
  obtain ⟨r, hr, hsame⟩ := Option.map_eq_some_iff.1 hevent
  have hrequest : (Course.requests x.log)[k]? = some r.request :=
    getElem?_of_prefix hx.replied (by rw [List.getElem?_map, hr]; rfl)
  have hpair : ((Course.requests x.log).zip (Course.answers x.log))[k]? = some (r.request, a) :=
    List.getElem?_zip_eq_some.2 ⟨hrequest, ha⟩
  exact ⟨r, hr, hsame.symm, hx.course.sound.pairs _ (List.mem_of_getElem? hpair)⟩

/-- What is read of a reply is its line. -/
theorem Inv.line_of_reply (hx : Inv s d x stage) {r : Terminal.Reply} (hr : r ∈ x.replies)
    {a : Answer} (ha : a.event = r.event) : a.line = r.line := by
  rw [Answer.line, ha, show r.event.payload.text? = _ from hx.inTurn.text r hr]
  rfl

/-- What a terminal that takes itself to be answered has done last. -/
theorem Waits.started (h : x.Waits t) (hresponding : t.responding = true) :
    ∃ earlier r, x.doings = earlier ++ [.replies r true] ∧
      Terminal.startsResponse r.request r.line = true := by
  rw [h.left.responding] at hresponding
  cases hlast : x.doings.getLast? with
  | none =>
    rw [hlast] at hresponding
    cases hresponding
  | some doing =>
    rw [hlast] at hresponding
    obtain ⟨earlier, hdoings⟩ := List.getLast?_eq_some_iff.1 hlast
    cases doing with
    | replies r entered =>
      obtain ⟨rfl, hstarts⟩ := Bool.and_eq_true_iff.1 hresponding
      exact ⟨earlier, r, hdoings, hstarts⟩
    | _ => cases hresponding

/-- **No command is run** while the terminal takes itself to be answered. Either the session has not
read the last reply, and the request for that is its own; or it has, and that was a prompt. -/
theorem Inv.spares (hx : Inv s d x stage) {earlier : List Terminal.Doing} {r : Terminal.Reply}
    (hdoings : x.doings = earlier ++ [.replies r true])
    (hstarts : Terminal.startsResponse r.request r.line = true) : stage.runsCommand = false := by
  rw [← Bool.not_eq_true]
  intro hruns
  have hreplies : x.replies = earlier.filterMap Terminal.Doing.reply? ++ [r] := by
    rw [Pairing.replies, hdoings]
    exact Course.filterMap_concat _ _ _
  have hcounts := hx.counts
  rcases Nat.eq_or_lt_of_le hcounts.1 with hread | hunread
  · obtain ⟨a, ha, -, hprompt⟩ := hx.course.spent_of_runsCommand hruns
    rw [List.getLast?_eq_getElem?] at ha
    obtain ⟨r', hr', hevent, hto⟩ := hx.linked ha
    rw [hread, ← List.getLast?_eq_getElem?, hreplies, List.getLast?_concat] at hr'
    obtain rfl := Option.some.inj hr'
    have hline := hx.line_of_reply (hreplies ▸ List.mem_append_right _ List.mem_cons_self) hevent
    rw [← hline, hto.starts, hprompt] at hstarts
    cases hstarts
  · have hrequests : x.replies.map (·.request) = Course.requests x.log :=
      hx.replied.eq_of_length (by rw [List.length_map]; omega)
    rw [hreplies, List.map_append] at hrequests
    have hlinked := hx.course.sound.linked
    have hasked : (Course.answers x.log).length ≠ (Course.requests x.log).length := by omega
    cases stage with
    | awaitingLine reply use =>
      obtain ⟨before, last, hsplit, -, -, hplain⟩ := hlinked
      obtain rfl : r.request = last :=
        List.singleton_inj.1 (List.append_inj' (hrequests.trans hsplit) rfl).2
      have hnot : Terminal.isPlain r.request = true := by
        rw [Terminal.isPlain, hplain]
        exact hruns
      rw [Terminal.startsResponse, hnot] at hstarts
      cases hstarts
    | commanding rest caller =>
      obtain ⟨hclosing, -⟩ := hlinked.resolve_left hasked
      cases hclosing
    | asking plain use =>
      obtain ⟨hclosing, -⟩ := hlinked.resolve_left hasked
      cases hclosing
    | _ => cases hruns

/-- **The flag of the terminal matches the session.** Whatever is entered and whatever commands are
run: every answer that the session reads is the terminal's reply in its place, to its own request.
While the terminal takes itself to be answered it has no request, and what it has done last is to
reply, with an entered line, to a request that is not plain; a session that reads this reply hands
the line to the engine, or closes, if that is an exit word. Conversely, after a reply with an
entered line that a session hands to the engine, the terminal takes itself to be answered until it
takes the next request or interrupts. So it publishes an interrupt only while no command is run and
no question of one is asked or awaits its answer. -/
theorem responding_matches (h : Reached s d x) (ht : Placed x.world d t) :
    (∀ before v after a, x.log = before ++ v :: after → v.answer? = some a →
      ∃ r, x.replies[(Course.answers before).length]? = some r ∧ v.Reads a r) ∧
    (t.responding = true → t.pending = none ∧ t.open? = none ∧
      ∃ earlier r, x.doings = earlier ++ [.replies r true] ∧ Terminal.isPlain r.request = false ∧
        ∀ v a, Visit.Reads v a r →
          if a.isExit then (v.stage.turn v.world).2.isClosing = true else v.Hands r.line) ∧
    (∀ earlier r later, x.doings = earlier ++ .replies r true :: later →
      (∀ request, .takes request ∉ later) → .interrupts ∉ later →
        ∀ v a prompt, Visit.Reads v a r → v.Hands prompt → t.responding = true) ∧
    (∀ rest acts, x.world.ready = d :: rest → Stands x.world d (.terminal t) →
      (x.world.step program).bus = x.world.bus.run acts → .dispatch ∉ acts →
        ∀ e ∈ Bus.published acts, e.channel = Channel.interrupt →
          ∀ stage, Stands x.world s (.session stage) → stage.runsCommand = false) := by
  obtain ⟨stage, hx⟩ := inv_of_reached h
  have hwaits := hx.terminal t ht
  have hmem : ∀ {earlier later : List Terminal.Doing} {r : Terminal.Reply},
      x.doings = earlier ++ .replies r true :: later → r ∈ x.replies := fun {_ _ r} hdoings => by
    refine List.mem_filterMap.2 ⟨.replies r true, ?_, rfl⟩
    rw [hdoings]
    exact List.mem_append_right _ List.mem_cons_self
  refine ⟨fun before v after a hlog ha => ?_, fun hresponding => ?_, ?_, ?_⟩
  · have hplace : (Course.answers x.log)[(Course.answers before).length]? = some a := by
      rw [hlog, Course.answers, Course.answers, List.filterMap_append, List.filterMap_cons_some ha,
        List.getElem?_append_right (Nat.le_refl _), Nat.sub_self]
      rfl
    obtain ⟨r, hr, hevent, hto⟩ := hx.linked hplace
    have hv := hx.course.inSession_of_mem (hlog ▸ List.mem_append_right _ List.mem_cons_self)
    exact ⟨r, hr, hv, ha, hevent, hto⟩
  · obtain ⟨earlier, r, hdoings, hstarts⟩ := hwaits.started hresponding
    have hclosed : x.doings.getLast?.bind Terminal.Doing.opens? = none := by
      rw [hdoings, List.getLast?_concat]
      rfl
    refine ⟨?_, ?_, earlier, r, hdoings, ?_, fun v a hv => ?_⟩
    · refine Option.eq_none_iff_forall_ne_some.2 fun request hpending => ?_
      rw [hwaits.left.idle hpending] at hresponding
      cases hresponding
    · cases hended : t.isEnded with
      | false => exact (hwaits.left.opened hended).trans hclosed
      | true => exact Terminal.open?_of_ended hended
    · rw [← Bool.not_eq_true']
      exact (Bool.and_eq_true_iff.1 hstarts).1
    · have hline := hx.line_of_reply (hmem hdoings) hv.event
      rw [← hline, hv.repliesTo.starts] at hstarts
      obtain ⟨prompt, hprompt⟩ := Option.isSome_iff_exists.1 hstarts
      obtain ⟨hcloses, hands⟩ := Visit.hands_iff hv.inSession hv.answer
      rw [← hline, Answer.line_of_prompt hprompt]
      split
      · next hexit => exact hcloses hexit
      · next hexit =>
        rw [Bool.not_eq_true] at hexit
        exact (hands prompt).2 ⟨hexit, hprompt⟩
  · intro earlier r later hdoings htakes hinterrupts v a prompt hv hands
    have hline := hx.line_of_reply (hmem hdoings) hv.event
    obtain ⟨-, hprompt⟩ := ((Visit.hands_iff hv.inSession hv.answer).2 prompt).1 hands
    obtain rfl := hx.inTurn.eq_nil_of_replies hdoings htakes hinterrupts
    rw [hwaits.left.responding, hdoings, List.getLast?_concat]
    change Terminal.startsResponse r.request r.line = true
    rw [← hline, hv.repliesTo.starts, hprompt]
    rfl
  · intro rest acts hready hstands hacts hnone e he hchannel stage' hstage
    obtain ⟨acts₀, hstart⟩ := hx.course.sound.bus
    let w : World := { x.world with ready := rest }
    have hagrees : w.bus.Agrees := hstart ▸ Bus.agrees_run acts₀
    obtain ⟨t', hgoes, hdoes⟩ := t.does_turn w hwaits.left
    have hstep : x.world.step program = Schedule.settleTurn d (t.turn w) :=
      Schedule.step_own hready hstands
    have hbus := (Schedule.settleTurn_spec hgoes d).1
    rw [← hstep] at hbus
    have hdoing := hdoes.interrupts hagrees (hbus.symm.trans hacts) hnone he hchannel
    have hfollows := hwaits.left.follows hdoing
    cases hfollows with
    | interrupts _ hs =>
      obtain ⟨earlier, r, hdoings, hstarts⟩ := hwaits.started (hwaits.left.responding.trans hs)
      obtain rfl := hx.session stage' hstage
      exact hx.spares hdoings hstarts

/-! ## A response that is interrupted -/

/-- A session with the built-in commands, at its start at a terminal, is a pairing. -/
theorem reached_start (context : Context) (lines : List String) (ended : Bool)
    (h : context.registry = Registry.ofCommands Command.builtins) :
    Reached 0 1 { world := (Play.start context [] lines ended).world } := by
  let first : Bus Message := Bus.run {} [.subscribe (.channel Channel.default)]
  have hfirst : first.Agrees := Bus.agrees_run _
  have hgranted := (hfirst.subscribe (.channel Channel.inputRequest)).granted_act
    (hfirst.granted_subscribe _) (.subscribe (.channel Channel.sessionExit))
  exact .start ⟨[.subscribe (.channel Channel.default), .subscribe (.channel Channel.inputRequest),
    .subscribe (.channel Channel.sessionExit)], rfl, fun _ _ => rfl⟩ h rfl rfl hgranted rfl rfl rfl

/-- The session takes its turn, from the given stage. -/
def sessionTurn (x : Pairing) (stage : Stage) : Pairing :=
  { x with
    world := x.world.step program
    log := x.log ++ [⟨stage, { x.world with ready := x.world.ready.tail }⟩] }

theorem Reached.sessionTurn (h : Reached s d x) (stage : Stage)
    (hready : x.world.ready.head? = some s) (hs : Stands x.world s (.session stage))
    (hb : stage.engages = true → Bus.Utters [] x.world.bus (x.world.step program).bus) :
    Reached s d (x.sessionTurn stage) := by
  obtain ⟨rest, hrest⟩ := List.head?_eq_some_iff.1 hready
  have hstep := Step.session (d := d) hrest hs hb
  rw [show rest = x.world.ready.tail by rw [hrest]; rfl] at hstep
  exact h.step hstep

/-- The terminal takes its turn, from where it stands. -/
def terminalTurn (x : Pairing) (t : Terminal) : Pairing :=
  { x with
    world := x.world.step program
    doings := x.doings ++ (t.doing? { x.world with ready := x.world.ready.tail }).toList }

theorem Reached.terminalTurn (h : Reached s d x) (t : Terminal)
    (hready : x.world.ready.head? = some d) (ht : Stands x.world d (.terminal t)) :
    Reached s d (x.terminalTurn t) := by
  obtain ⟨rest, hrest⟩ := List.head?_eq_some_iff.1 hready
  have hstep := Step.terminal (s := s) hrest ht
  rw [show rest = x.world.ready.tail by rw [hrest]; rfl] at hstep
  exact h.step hstep

/-- The dispatcher hands one event out, and then others take that many turns. -/
def handed (x : Pairing) (turns : Nat) : Pairing :=
  { x with world := Nat.repeat (fun w : World => w.step program) turns x.world }

theorem Reached.handed (h : Reached s d x) (turns : Nat)
    (hbus : (x.handed turns).world.bus = x.world.bus.dispatch)
    (hr : (x.handed turns).world.shared.registry = x.world.shared.registry)
    (hs : (x.handed turns).world.task? s = x.world.task? s)
    (hd : (x.handed turns).world.task? d = x.world.task? d) : Reached s d (x.handed turns) := by
  exact h.step (.others ⟨[.dispatch], hbus, fun _ _ => rfl⟩ hr
    (fun stage hstage => hs.symm.trans hstage) fun t ⟨c, ht⟩ => ⟨c, hd.symm.trans ht⟩)

/-- A session whose engine never ends has started, and a line has been entered. -/
def started : Pairing :=
  let context : Context :=
    { registry := .ofCommands Command.builtins, engine := .stalling }
  { world := (Play.start context [] ["tell me"] false).world : Pairing }.sessionTurn
    (.unstarted .session)

def request : Message := started.world.stamp (.lineRequest false)

/-- The terminal before the request, with the request, and when it has replied. -/
def watching : Terminal :=
  { output := 0, requests := 1, exits := 2, exitWord := "q", lines := ["tell me"] }

def prompted : Terminal := { watching with pending := some request, printed := [.prompt false] }

def replied : Terminal :=
  { watching with lines := [], responding := true, printed := [.prompt false] }

/-- The session has asked for a line, and the terminal has taken the request. -/
def opened : Pairing :=
  (((started.sessionTurn (.asking false (.input (.session 3)))).terminalTurn watching).handed
    3).terminalTurn watching

theorem reached_opened : Reached 0 1 opened := by
  have hstarted : Reached 0 1 started :=
    (reached_start _ ["tell me"] false rfl).sessionTurn (.unstarted .session) rfl rfl nofun
  have hasking := hstarted.sessionTurn (.asking false (.input (.session 3))) rfl rfl nofun
  have hasked := (hasking.terminalTurn watching rfl rfl).handed 3 rfl rfl rfl rfl
  exact hasked.terminalTurn watching rfl rfl

/-- It has replied, and the reply has been handed out. -/
def answered : Pairing := ((opened.terminalTurn prompted).terminalTurn replied).handed 2

theorem reached_answered : Reached 0 1 answered := by
  have hreplied := reached_opened.terminalTurn prompted rfl rfl
  exact (hreplied.terminalTurn replied rfl rfl).handed 2 rfl rfl rfl rfl

def reply : Terminal.Reply :=
  prompted.replyWith request { opened.world with ready := [] } "tell me"

/-- The user presses the key then. -/
def pressing : Terminal := { replied with keyPressed := true }

def pressed : Pairing :=
  { answered with
    world := (answered.world.place 1 (.terminal pressing)).signal .interruptKey }

/-- But the session goes first: it reads the reply and hands it to the engine. -/
def reading : Visit :=
  ⟨.awaitingLine 4 (.input (.session 3)), { pressed.world with ready := [1] }⟩

def engaged : Pairing :=
  (pressed.sessionTurn reading.stage).sessionTurn (.prompting "tell me" 3)

theorem reached_engaged : Reached 0 1 engaged := by
  have hreplied : Stands answered.world 1 (.terminal replied) := rfl
  have hpressed : Reached 0 1 pressed :=
    reached_answered.step (.user hreplied .pressKey .interruptKey)
  have hread := hpressed.sessionTurn reading.stage rfl rfl nofun
  refine hread.sessionTurn (.prompting "tell me" 3) rfl rfl fun _ => ?_
  let thinking : Message :=
    (pressed.sessionTurn reading.stage).world.stamp { data := .text "thinking" }
  have hlistens := Bus.Publishes.listen
    { (pressed.sessionTurn reading.stage).world with ready := [2] } Channel.interrupt
  refine .of_silent (hlistens.trans (.act (.publish ⟨Channel.default, thinking⟩) nofun))
    fun e he => ?_
  exact List.mem_singleton.1 he ▸ Channel.not_isForLines_default

/-- Now the terminal interrupts. -/
theorem bus_interrupted : (engaged.world.step program).bus = engaged.world.bus.run
    [.publish ⟨Channel.interrupt, engaged.world.stamp (.interrupt .client)⟩] := by
  let w : World := { engaged.world with ready := [2] }
  let idle : Terminal := { pressing with keyPressed := false, responding := false }
  have hready : engaged.world.ready = [1, 2] := rfl
  have hstands : Stands engaged.world 1 (.terminal pressing) := rfl
  have hturn : program.turn 1 (.terminal pressing) w =
      (w.send (.interrupt .client), .again (.terminal idle)) := rfl
  have hsent : ∀ (x : World) (rest : List TaskId) (o : Outgoing),
      (Schedule.send { x with ready := rest } o).bus =
        x.bus.run [.publish ⟨o.channel, x.stamp o⟩] :=
    fun _ _ _ => (Schedule.roused_nudge _).bus
  rw [Schedule.step_own hready hstands, hturn, (Schedule.settleTurn_spec (.inr rfl) 1).1]
  exact hsent engaged.world [2] (.interrupt .client)

theorem responding_matches_interrupted : ∃ v a stage acts, Reached 0 1 engaged ∧
    Placed engaged.world 1 pressing ∧ Stands engaged.world 0 (.session stage) ∧
    v ∈ engaged.log ∧ v.Reads a reply ∧ v.Hands "tell me" ∧ pressing.responding = true ∧
    (engaged.world.step program).bus = engaged.world.bus.run acts ∧
    (∃ e ∈ Bus.published acts, e.channel = Channel.interrupt) ∧ stage.runsCommand = false := by
  have hplaced : Placed engaged.world 1 pressing := ⟨false, rfl⟩
  have hracing : Stands engaged.world 0
    (.session (.racing { work := .stalled [], interrupts := some 5 } 3)) := rfl
  have hdoings : engaged.doings = [.takes request] ++ [.replies reply true] := rfl
  obtain ⟨hreads, hstarted, hconverse, hspares⟩ := responding_matches reached_engaged hplaced
  have hsome : reading.answer?.isSome = true := by decide +kernel
  obtain ⟨a, ha⟩ := Option.isSome_iff_exists.1 hsome
  have hexit : ∀ b ∈ reading.answer?, b.isExit = false := by decide +kernel
  obtain ⟨r, hr, hv⟩ := hreads answered.log reading _ a rfl ha
  obtain rfl : reply = r := by
    have hreplies : engaged.replies = [reply] := rfl
    have hnone : Course.answers answered.log = [] := rfl
    rw [hreplies, hnone] at hr
    exact Option.some.inj hr
  obtain ⟨-, -, earlier, last, hlast, -, hhands⟩ := hstarted rfl
  obtain rfl : reply = last := by
    have hsame := List.singleton_inj.1 (List.append_inj' (hdoings.symm.trans hlast) rfl).2
    exact (Terminal.Doing.replies.inj hsame).1
  have hands : reading.Hands "tell me" := by
    have hands := hhands reading a hv
    rwa [hexit a ha, if_neg Bool.false_ne_true] at hands
  have hlater : pressing.responding = true :=
    hconverse _ reply [] hdoings nofun nofun reading a "tell me" hv hands
  refine ⟨reading, a, _, _, reached_engaged, hplaced, hracing, ?_, hv, hands, hlater,
    bus_interrupted, ⟨_, List.mem_singleton_self _, rfl⟩, ?_⟩
  · exact List.mem_append_left _ (List.mem_append_right _ List.mem_cons_self)
  · have hnone : .dispatch ∉ [Bus.Act.publish (⟨Channel.interrupt,
        engaged.world.stamp (.interrupt .client)⟩ : Event Message)] := by simp
    exact hspares [2] _ rfl rfl bus_interrupted hnone _ (List.mem_singleton_self _) rfl _ hracing

end Pairing

end Parley
