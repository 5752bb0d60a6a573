import Parley.Proofs.Session.Dialogue
import Parley.Proofs.Session.Loop
import Parley.Proofs.Session.Sending

/-!
# Clearing on consent

A `Clearing` is a run of the command that clears the conversation: the turns that the session has
taken for it, and where it stands. Between two turns anything may happen to the world. What the
command does in a turn is an `Effect`, and the turn does nothing else (`Visit.Does`).

What is still to be done where the run stands is its `Phase`. With what has been done, that is
always what the replies call for (`Clearing.Inv`), so that only a reply that consents has the
conversation cleared (`Clearing.clear_on_consent`). The session comes to such a run by a line with
the name of the command (`Stage.useLine_clear`), and the turns it takes from there on are one
(`Course.clearing`).
-/

set_option autoImplicit false

namespace Parley

/-! ## What a command does -/

/-- What a command does to its session in a turn. -/
inductive Effect
  | send (o : Outgoing)
  /-- It has the engine forget the conversation. -/
  | clear

namespace Effect

def isClear : Effect → Bool
  | clear => true
  | send _ => false

/-- It asks for a line. -/
def isRequest : Effect → Bool
  | clear => false
  | send o => o.channel == "input_request"

def isWarning : Effect → Bool
  | clear => false
  | send o => (o.extra.get? "style").bind Value.asText? == some "warning"

/-- The warning that an answer was not understood. -/
def warn : Effect :=
  send
    { channel := "default"
      source := .server
      data := .text "Please answer y or n"
      extra := [("style", .text "warning")] }

/-- The request for a line; `plain` says that it is for a question. -/
def request (plain : Bool) : Effect :=
  send
    { channel := "input_request"
      source := .server
      data := .null
      extra := [("plain", .bool plain)] }

end Effect

/-- What the step of a script does. -/
def Script.effect? : Script → Option Effect
  | send o _ => some (.send o)
  | forget _ => some .clear
  | _ => none

/-- The command that the session runs has not come to its end. -/
def Stage.inCommand : Stage → Bool
  | commanding _ _ => true
  | asking _ use | awaitingLine _ use => !use.isOwn
  | _ => false

/-- Where a task stands after one turn in each of these worlds. -/
def Stage.after (stage : Stage) (ws : List World) : Stage :=
  ws.foldl (fun stage w => (stage.turn w).2) stage

namespace Visit

/-- What the turn does for a command. -/
def effect? (v : Visit) : Option Effect :=
  match v.stage with
  | .commanding rest _ => rest.effect?
  | .asking plain _ => some (.request plain)
  | .awaitingLine _ (.answer default _ _) =>
    if v.answer?.any fun a => !a.isExit && (Stage.yesNo? default a.line).isNone then some .warn
    else none
  | _ => none

/-- The turn does this and nothing else: it publishes no other message and leaves alone all that the
tasks share. If it ends the session, it may announce so. -/
inductive Does (v : Visit) : Option Effect → Prop
  | sends {o : Outgoing} (h : Sends [o.sentIn v.world] v.world v.led.1) : Does v (some (.send o))
  | clears (h : v.led.1 =
      { v.world with
        shared :=
          { v.world.shared with
            memory := v.world.shared.engine.clear v.world.shared.memory } }) : Does v (some .clear)
  | nothing (h : Sends [] v.world v.led.1) : Does v none
  | leaves (hclosing : v.led.2.isClosing = true) {ms : List Message}
    (hms : ∀ m ∈ ms, m.channel = Channel.sessionExit) (h : Sends ms v.world v.led.1) : Does v none

end Visit

/-! ## Replies to the question -/

namespace Answer

/-- The trimmed text in lower case. (Letters other than the ASCII ones are left as they are: none of
them has a letter of the words below as its lower case.) -/
def word (a : Answer) : String := Text.lowerASCII (Text.trim a.line)

/-- It is an exit word, or an answer. -/
def decides (a : Answer) : Bool := a.isExit || ["", "y", "yes", "n", "no"].contains a.word

/-- It is an answer that means yes, and no exit word. -/
def consents (a : Answer) : Bool := !a.isExit && ["", "y", "yes"].contains a.word

end Answer

theorem Answer.consents_eq_false {a : Answer} (h : a.decides = false) : a.consents = false := by
  have hsubset : ["", "y", "yes"] ⊆ ["", "y", "yes", "n", "no"] :=
    List.subset_append_left _ ["n", "no"]
  rw [decides, Bool.or_eq_false_iff] at h
  rw [consents, h.1, Bool.not_false, Bool.true_and, ← Bool.not_eq_true, List.contains_iff_mem]
  intro hmem
  rw [List.contains_iff_mem.2 (hsubset hmem)] at h
  cases h.2

/-- What a reply that is no exit word says to a question whose default is yes. -/
theorem Answer.yesNo?_line {a : Answer} (he : a.isExit = false) :
    Stage.yesNo? true a.line =
      if a.consents then some true else if a.decides then some false else none := by
  rw [consents, decides, he, word]
  unfold Stage.yesNo?
  split
  all_goals simp_all

/-! ## Runs of the command -/

namespace Clearing

/-- The session is about to run the command. -/
def start (d : Directory) (responder : TaskId) : Stage :=
  .commanding (Command.clearCommand.script d []) (.inputLoop (.session responder))

def question : Outgoing :=
  { channel := "default"
    source := .server
    data := .text "Clear the conversation? (Y/n)"
    extra := [] }

def cleared : Outgoing :=
  { channel := "default"
    source := .server
    data := .text "Conversation cleared"
    extra := [("style", .text "success")] }

def kept : Outgoing :=
  { channel := "default"
    source := .server
    data := .text "Conversation kept"
    extra := [("style", .text "info")] }

/-- The script after the answer. -/
def settle (yes : Bool) : Script := if yes then Command.clearNow else .send kept .finish

/-- What is done before the first reply. -/
def opening (confirm : Bool) : List Effect :=
  if confirm then [.send question, .request true] else [.clear, .send cleared]

/-- What a reply calls for. -/
def reaction (a : Answer) : List Effect :=
  if a.isExit then []
  else if a.consents then [.clear, .send cleared]
  else if a.decides then [.send kept]
  else [.warn, .request true]

end Clearing

/-- A run of the command under these settings: the turns taken for it, where the session stands, and
the world. -/
inductive Clearing (d : Directory) (responder : TaskId) (settings : Settings) :
    List Visit → Stage → World → Prop
  | look {w : World} (hw : w.shared.settings = settings) :
    Clearing d responder settings [⟨Clearing.start d responder, w⟩]
      ((Clearing.start d responder).turn w).2 ((Clearing.start d responder).turn w).1
  | turn {log : List Visit} {stage : Stage} {w : World}
    (h : Clearing d responder settings log stage w) (hrun : stage.inCommand = true) :
    Clearing d responder settings (log ++ [⟨stage, w⟩]) (stage.turn w).2 (stage.turn w).1
  | others {log : List Visit} {stage : Stage} {w w' : World}
    (h : Clearing d responder settings log stage w) : Clearing d responder settings log stage w'

namespace Clearing

def effects (log : List Visit) : List Effect := log.filterMap (·.effect?)

def clears (es : List Effect) : Nat := es.countP (·.isClear)

def warnings (es : List Effect) : Nat := es.countP (·.isWarning)

def requests (es : List Effect) : Nat := es.countP (·.isRequest)

/-- What the question is awaited for. -/
def use (responder : TaskId) : LineUse :=
  .answer true settle (.inputLoop (.session responder))

/-- The session clears or not without asking, or the last reply is the first that decides, and is no
exit word. -/
def Settled : Bool → List Answer → Prop
  | true, replies => ∃ before r, replies = before ++ [r] ∧ (∀ a ∈ before, a.decides = false) ∧
    r.decides = true ∧ r.isExit = false
  | false, replies => replies = []

/-- What is left of the command once it is settled, and what it does. -/
inductive Concluding : Script → List Effect → Prop
  | clear : Concluding Command.clearNow [.clear, .send cleared]
  | cleared : Concluding (.send cleared .finish) [.send cleared]
  | kept : Concluding (.send kept .finish) [.send kept]
  | finish : Concluding .finish []

/-- Where a run stands after these replies, and what it is to do before it reads another. -/
inductive Phase (responder : TaskId) (confirm : Bool) (replies : List Answer) :
    List Effect → Stage → Prop
  | questioning (hconfirm : confirm = true) (hnone : replies = []) :
    Phase responder confirm replies [.send question, .request true]
      (.commanding (.send question (.ask true settle)) (.inputLoop (.session responder)))
  | posing (hconfirm : confirm = true) (hnone : replies = []) :
    Phase responder confirm replies [.request true]
      (.commanding (.ask true settle) (.inputLoop (.session responder)))
  | asking (hconfirm : confirm = true) (hopen : ∀ a ∈ replies, a.decides = false) :
    Phase responder confirm replies [.request true] (.asking true (use responder))
  | awaiting (hconfirm : confirm = true) (hopen : ∀ a ∈ replies, a.decides = false)
    {reply : SubscriptionId} :
    Phase responder confirm replies [] (.awaitingLine reply (use responder))
  | concluding (hsettled : Settled confirm replies) {rest : Script} {due : List Effect}
    (hrest : Concluding rest due) :
    Phase responder confirm replies due (.commanding rest (.inputLoop (.session responder)))
  | ended (hsettled : Settled confirm replies) :
    Phase responder confirm replies [] (.asking false (.input (.session responder)))
  | left (hconfirm : confirm = true) {stage : Stage} (hclosing : stage.isClosing = true)
    (hreplies : (∀ a ∈ replies, a.decides = false) ∨
      ∃ before r, replies = before ++ [r] ∧ (∀ a ∈ before, a.decides = false) ∧ r.isExit = true) :
    Phase responder confirm replies [] stage

/-! ## One turn -/

/-- The turn is right after these replies: it does what is due first, or reads a reply and is to do
what that calls for. -/
structure Proceeds (responder : TaskId) (confirm : Bool) (replies : List Answer) (due : List Effect)
    (v : Visit) : Prop where
  does : v.Does v.effect?
  next : ∃ due', Phase responder confirm (replies ++ v.answer?.toList) due' v.led.2 ∧
    due ++ v.answer?.toList.flatMap reaction = v.effect?.toList ++ due'

section
variable {responder : TaskId} {confirm : Bool} {replies : List Answer} {due due' : List Effect}
  {stage : Stage} {v : Visit} {led : Led}

/-- A turn that reads nothing. -/
theorem Proceeds.of_unread (ha : v.answer? = none) (hled : v.led = led) (hdoes : v.Does v.effect?)
    (hphase : Phase responder confirm replies due' led.2)
    (hdue : due = v.effect?.toList ++ due') : Proceeds responder confirm replies due v := by
  refine ⟨hdoes, due', ?_, ?_⟩
  · rwa [ha, hled, Option.toList_none, List.append_nil]
  · rw [ha, Option.toList_none, List.flatMap_nil, List.append_nil, hdue]

/-- A turn that reads a reply. -/
theorem Proceeds.of_read {a : Answer} (ha : v.answer? = some a) (hled : v.led = led)
    (hdoes : v.Does v.effect?) (hphase : Phase responder confirm (replies ++ [a]) due' led.2)
    (hdue : reaction a = v.effect?.toList ++ due') : Proceeds responder confirm replies [] v := by
  refine ⟨hdoes, due', ?_, ?_⟩
  · rwa [ha, hled]
  · rw [ha, Option.toList_some, List.flatMap_singleton, List.nil_append, hdue]

theorem reaction_of_open {a : Answer} (hd : a.decides = false) :
    reaction a = [.warn, .request true] := by
  have he : a.isExit = false := (Bool.or_eq_false_iff.1 hd).1
  rw [reaction, he, Answer.consents_eq_false hd, hd]
  rfl

theorem open_concat {a : Answer} (hopen : ∀ a ∈ replies, a.decides = false)
    (ha : a.decides = false) : ∀ x ∈ replies ++ [a], x.decides = false := by
  intro x hx
  rcases List.mem_append.1 hx with hx | hx
  · exact hopen x hx
  · rw [List.mem_singleton.1 hx]
    exact ha

theorem inCommand_of_isClosing (h : stage.isClosing = true) : stage.inCommand = false := by
  cases stage <;> first | rfl | cases h

theorem phase_endSession {w : World} (hconfirm : confirm = true)
    (hreplies : (∀ a ∈ replies, a.decides = false) ∨
      ∃ before r, replies = before ++ [r] ∧ (∀ a ∈ before, a.decides = false) ∧ r.isExit = true) :
    Phase responder confirm replies [] (Stage.endSession responder (.ok ()) w).2 :=
  .left hconfirm (Stage.isClosing_endSession _ _ _) hreplies

/-- The end of the session, once a line has been read. -/
theorem does_leave {reply : SubscriptionId}
    (hled : v.led = Stage.endSession responder (.ok ()) ((v.world.taken reply).release reply)) :
    v.Does none := by
  obtain ⟨ms, hms, hsends⟩ :=
    Sends.endSession responder (.ok ()) ((v.world.taken reply).release reply)
  refine .leaves ?_ hms ?_
  · rw [hled]
    exact Stage.isClosing_endSession _ _ _
  · rw [hled]
    exact (Sends.read v.world reply).trans hsends

theorem effect?_awaiting (responder : TaskId) (reply : SubscriptionId) (w : World) :
    let v : Visit := ⟨.awaitingLine reply (use responder), w⟩
    v.effect? =
      if v.answer?.any fun a => !a.isExit && (Stage.yesNo? true a.line).isNone then some .warn
      else none := rfl

/-- What a turn comes to that reads a reply to the question. -/
inductive Hears (responder : TaskId) (reply : SubscriptionId) (a : Answer) (v : Visit) : Prop
  | leaves (he : a.isExit = true) (heffect : v.effect? = none)
    (hled : v.led = Stage.endSession responder (.ok ()) ((v.world.taken reply).release reply))
  | asksAgain (hd : a.decides = false) (heffect : v.effect? = some .warn)
    (hled : v.led = Stage.askAgain (use responder) ((v.world.taken reply).release reply))
  | settles (hd : a.decides = true) (he : a.isExit = false) (heffect : v.effect? = none)
    (hled : v.led = ((v.world.taken reply).release reply,
      .commanding (settle a.consents) (.inputLoop (.session responder))))

theorem hears_reply (responder : TaskId) {w : World} {reply : SubscriptionId} {e : Event Message}
    (hpeek : w.peek reply = .event e) :
    let v : Visit := ⟨.awaitingLine reply (use responder), w⟩
    ∃ a, v.answer? = some a ∧ Hears responder reply a v := by
  intro v
  let a : Answer := { own := false, settings := w.shared.settings, event := e }
  have ha : v.answer? = some a := by
    simp only [Visit.answer?, v, hpeek]
    rfl
  have heffect : v.effect? =
      if !a.isExit && (Stage.yesNo? true a.line).isNone then some .warn else none := by
    rw [effect?_awaiting, ha]
    rfl
  have hled : v.led = Stage.useLine (use responder)
      (if a.isExit then .error .sessionExit else .ok a.line) ((w.taken reply).release reply) := by
    simp only [Visit.led, Stage.turn, v, hpeek]
    rfl
  refine ⟨a, ha, ?_⟩
  cases he : a.isExit with
  | true =>
    rw [he] at heffect hled
    exact .leaves he heffect hled
  | false =>
    rw [he, Answer.yesNo?_line he] at heffect
    rw [he, if_neg Bool.false_ne_true, use, Stage.useLine, Answer.yesNo?_line he] at hled
    cases hd : a.decides with
    | false =>
      rw [hd, Answer.consents_eq_false hd] at heffect hled
      exact .asksAgain hd heffect hled
    | true =>
      rw [hd] at heffect hled
      refine .settles hd he ?_ ?_
      · rw [heffect]
        cases a.consents <;> rfl
      · rw [hled]
        cases a.consents <;> rfl

/-- What is left after an answer. -/
theorem concluding_settle (yes : Bool) :
    Concluding (settle yes) (if yes then [.clear, .send cleared] else [.send kept]) := by
  cases yes with
  | true => exact .clear
  | false => exact .kept

/-- The turn in which a reply to the question is there. -/
theorem proceeds_reply {w : World} {reply : SubscriptionId} {e : Event Message}
    (hconfirm : confirm = true) (hopen : ∀ a ∈ replies, a.decides = false)
    (hpeek : w.peek reply = .event e) :
    Proceeds responder confirm replies [] ⟨.awaitingLine reply (use responder), w⟩ := by
  have hread : Sends [] w ((w.taken reply).release reply) := .read w reply
  obtain ⟨a, ha, hhears⟩ := hears_reply responder hpeek
  cases hhears with
  | leaves he heffect hled =>
    refine .of_read ha hled ?_ (phase_endSession hconfirm (.inr ⟨replies, a, rfl, hopen, he⟩)) ?_
    · rw [heffect]
      exact does_leave hled
    · rw [heffect, reaction, if_pos he]
      rfl
  | asksAgain hd heffect hled =>
    have hsends := hread.trans (.send _ (.styled "Please answer y or n" .warning))
    refine .of_read ha hled ?_ (.asking hconfirm (open_concat hopen hd)) ?_
    · rw [heffect]
      exact .sends (hled ▸ hsends)
    · rw [heffect, reaction_of_open hd]
      rfl
  | settles hd he heffect hled =>
    have hsettled : Settled confirm (replies ++ [a]) := by
      rw [hconfirm]
      exact ⟨replies, a, rfl, hopen, hd, he⟩
    refine .of_read ha hled ?_ (.concluding hsettled (concluding_settle a.consents)) ?_
    · rw [heffect]
      exact .nothing (hled ▸ hread)
    · rw [heffect, reaction, he, hd]
      rfl

/-- A look for the reply to the question. -/
theorem proceeds_awaiting (hconfirm : confirm = true) (hopen : ∀ a ∈ replies, a.decides = false)
    (w : World) (reply : SubscriptionId) :
    Proceeds responder confirm replies [] ⟨.awaitingLine reply (use responder), w⟩ := by
  let v : Visit := ⟨.awaitingLine reply (use responder), w⟩
  cases hpeek : w.peek reply with
  | event e => exact proceeds_reply hconfirm hopen hpeek
  | waiting =>
    have ha : v.answer? = none := by simp only [Visit.answer?, v, hpeek]
    have heffect : v.effect? = none := by
      rw [effect?_awaiting, ha]
      rfl
    have hled : v.led = (w, v.stage) := by simp only [Visit.led, Stage.turn, v, hpeek]
    refine .of_unread ha hled ?_ (.awaiting hconfirm hopen) (by rw [heffect]; rfl)
    rw [heffect]
    refine .nothing ?_
    rw [hled]
    exact .refl
  | closed =>
    -- without a reply the session ends as after an exit word
    have ha : v.answer? = none := by simp only [Visit.answer?, v, hpeek]
    have heffect : v.effect? = none := by
      rw [effect?_awaiting, ha]
      rfl
    have hled : v.led = Stage.endSession responder (.ok ()) ((w.taken reply).release reply) := by
      simp only [Visit.led, Stage.turn, v, hpeek]
      rfl
    refine .of_unread ha hled ?_ (phase_endSession hconfirm (.inl hopen)) (by rw [heffect]; rfl)
    rw [heffect]
    exact does_leave hled

/-- A step of what is left of the command once it is settled. -/
theorem proceeds_concluding (hsettled : Settled confirm replies) {rest : Script}
    (hrest : Concluding rest due) (w : World) :
    Proceeds responder confirm replies due
      ⟨.commanding rest (.inputLoop (.session responder)), w⟩ := by
  cases hrest with
  | clear => exact .of_unread rfl rfl (.clears rfl) (.concluding hsettled .cleared) rfl
  | cleared => exact .of_unread rfl rfl (.sends (.send w _)) (.concluding hsettled .finish) rfl
  | kept => exact .of_unread rfl rfl (.sends (.send w _)) (.concluding hsettled .finish) rfl
  | finish => exact .of_unread rfl rfl (.nothing .refl) (.ended hsettled) rfl

/-- **One turn of the command.** -/
theorem Phase.turn (h : Phase responder confirm replies due stage) (hrun : stage.inCommand = true)
    (w : World) : Proceeds responder confirm replies due ⟨stage, w⟩ := by
  cases h with
  | questioning hconfirm hnone =>
    exact .of_unread rfl rfl (.sends (.send w _)) (.posing hconfirm hnone) rfl
  | posing hconfirm hnone =>
    have hopen : ∀ a ∈ replies, a.decides = false := hnone ▸ nofun
    exact .of_unread rfl rfl (.nothing .refl) (.asking hconfirm hopen) rfl
  | asking hconfirm hopen =>
    have hsends := (Sends.send w (.lineRequest true)).trans
      (.listen _ (w.stamp (.lineRequest true)).replyChannel)
    exact .of_unread rfl rfl (.sends hsends) (.awaiting hconfirm hopen) rfl
  | awaiting hconfirm hopen => exact proceeds_awaiting hconfirm hopen w _
  | concluding hsettled hrest => exact proceeds_concluding hsettled hrest w
  | ended hsettled => cases hrun
  | left hconfirm hclosing hreplies =>
    rw [inCommand_of_isClosing hclosing] at hrun
    cases hrun

end

/-! ## Whole runs -/

variable {d : Directory} {responder : TaskId} {settings : Settings} {log : List Visit}
  {stage : Stage} {w : World}

/-- What holds of every run. -/
structure Inv (responder : TaskId) (confirm : Bool) (log : List Visit) (stage : Stage) : Prop where
  does : ∀ v ∈ log, v.Does v.effect?
  phase : ∃ due, Phase responder confirm (Course.answers log) due stage ∧
    effects log ++ due = opening confirm ++ (Course.answers log).flatMap reaction

theorem effects_concat (log : List Visit) (v : Visit) :
    effects (log ++ [v]) = effects log ++ v.effect?.toList := Course.filterMap_concat _ log v

theorem Inv.turn {confirm : Bool} (h : Inv responder confirm log stage)
    (hrun : stage.inCommand = true) (w : World) :
    Inv responder confirm (log ++ [⟨stage, w⟩]) (stage.turn w).2 := by
  obtain ⟨due, hphase, hdone⟩ := h.phase
  obtain ⟨hdoes, due', hphase', hdue⟩ := hphase.turn hrun w
  refine ⟨fun v hv => ?_, due', ?_, ?_⟩
  · rcases List.mem_append.1 hv with hv | hv
    · exact h.does v hv
    · rw [List.mem_singleton.1 hv]
      exact hdoes
  · rw [Course.answers_concat]
    exact hphase'
  · -- what was due and what a reply calls for is what the turn does and what is due then
    rw [Course.answers_concat, effects_concat, List.append_assoc, ← hdue, ← List.append_assoc,
      hdone, List.flatMap_append, List.append_assoc]

theorem inv (h : Clearing d responder settings log stage w) :
    Inv responder settings.confirmClear log stage := by
  induction h with
  | @look w hw =>
    have hled : (start d responder).turn w = (w, .commanding
        (if settings.confirmClear then .send question (.ask true settle) else Command.clearNow)
        (.inputLoop (.session responder))) := hw ▸ rfl
    refine ⟨fun v hv => ?_, opening settings.confirmClear, ?_, (List.append_nil _).symm⟩
    · rw [List.mem_singleton.1 hv]
      exact .nothing .refl
    · rw [hled]
      cases hconfirm : settings.confirmClear with
      | true => exact .questioning rfl rfl
      | false =>
        have hsettled : Settled false (Course.answers [⟨start d responder, w⟩]) := rfl
        exact .concluding hsettled .clear
  | turn h hrun ih => exact ih.turn hrun _
  | others h ih => exact ih

/-! ## What has been done -/

section
variable {confirm : Bool}

/-- **What has been done**, and what is still due, is what the replies call for. -/
theorem Inv.effects_eq (h : Inv responder confirm log stage) :
    ∃ due, Phase responder confirm (Course.answers log) due stage ∧ ∀ p : Effect → Bool,
      (effects log).countP p + due.countP p =
        (opening confirm).countP p + ((Course.answers log).flatMap reaction).countP p := by
  obtain ⟨due, hphase, hdone⟩ := h.phase
  refine ⟨due, hphase, fun p => ?_⟩
  rw [← List.countP_append, hdone, List.countP_append]

/-- Each reply that decides nothing calls for a warning and a request. -/
theorem countP_open {replies : List Answer} (hopen : ∀ a ∈ replies, a.decides = false)
    (p : Effect → Bool) :
    (replies.flatMap reaction).countP p = replies.length * [Effect.warn, .request true].countP p := by
  induction replies with
  | nil => rw [List.flatMap_nil, List.length_nil, Nat.zero_mul]; rfl
  | cons a replies ih =>
    rw [List.flatMap_cons, List.countP_append, reaction_of_open (hopen a List.mem_cons_self),
      ih fun x hx => hopen x (List.mem_cons_of_mem _ hx), List.length_cons, Nat.succ_mul,
      Nat.add_comm]

/-- The first reply that decides is the last. -/
theorem eq_of_first {replies before after : List Answer} {r r' : Answer}
    (h : replies ++ [r'] = before ++ r :: after) (hopen : ∀ a ∈ replies, a.decides = false)
    (hr : r.decides = true) : before = replies ∧ r = r' ∧ after = [] := by
  rcases Course.split_concat h with hlast | ⟨init, -, hinit⟩
  · exact hlast
  · have hr' := hopen r (hinit ▸ List.mem_append_right _ List.mem_cons_self)
    rw [hr] at hr'
    cases hr'

theorem counts_reaction {r : Answer} (hr : r.decides = true) :
    clears (reaction r) = (if r.consents then 1 else 0) ∧ warnings (reaction r) = 0 ∧
      requests (reaction r) = 0 := by
  rw [reaction, hr]
  cases he : r.isExit with
  | true =>
    have hconsents : r.consents = false := by
      rw [Answer.consents, he]
      rfl
    rw [hconsents]
    decide
  | false => cases r.consents <;> decide

/-- No warning is ever due. -/
theorem Phase.warnings_due {replies : List Answer} {due : List Effect}
    (h : Phase responder confirm replies due stage) : warnings due = 0 := by
  cases h with
  | concluding hsettled hrest => cases hrest <;> decide
  | _ => decide

/-- Where the run stands as long as no reply decides. -/
theorem Phase.of_open {replies : List Answer} {due : List Effect}
    (h : Phase responder true replies due stage) (hopen : ∀ a ∈ replies, a.decides = false) :
    clears due = 0 ∧ (stage.isAwaiting = true → due = []) ∧
      (stage.isBusy = true ∨ stage.isAwaiting = true ∨ stage.isClosing = true) ∧
      (stage.inCommand = false → stage.isClosing = true) := by
  cases h with
  | questioning | posing | asking => exact ⟨by decide, nofun, .inl rfl, nofun⟩
  | awaiting => exact ⟨rfl, fun _ => rfl, .inr (.inl rfl), nofun⟩
  | concluding hsettled | ended hsettled =>
    obtain ⟨before, r, hreplies, -, hr, -⟩ := hsettled
    have hd := hopen r (hreplies ▸ List.mem_append_right _ List.mem_cons_self)
    rw [hr] at hd
    cases hd
  | left hconfirm hclosing => exact ⟨rfl, fun _ => rfl, .inr (.inr hclosing), fun _ => hclosing⟩

/-- Where the run stands when a reply has decided. -/
structure Decided (responder : TaskId) (before : List Answer) (r : Answer) (after : List Answer)
    (due : List Effect) (stage : Stage) : Prop where
  /-- It is the last reply. -/
  last : after = []
  /-- It is the first to decide. -/
  first : ∀ a ∈ before, a.decides = false
  unasked : requests due = 0
  done : stage.inCommand = false → due = []
  left : r.isExit = true → stage.isClosing = true
  /-- The session takes its next turn at once, or goes on with its next line. -/
  goesOn : r.isExit = false → stage.isBusy = true ∧
    (stage.inCommand = false → stage = .asking false (.input (.session responder)))

theorem Phase.decided {before after : List Answer} {r : Answer} {due : List Effect}
    (h : Phase responder true (before ++ r :: after) due stage) (hr : r.decides = true) :
    Decided responder before r after due stage := by
  have hmem : r ∈ before ++ r :: after := List.mem_append_right _ List.mem_cons_self
  have hdecides : ¬∀ a ∈ before ++ r :: after, a.decides = false := by
    intro hopen
    rw [hopen r hmem] at hr
    cases hr
  cases h with
  | questioning hconfirm hnone | posing hconfirm hnone =>
    rw [hnone] at hmem
    cases hmem
  | asking hconfirm hopen | awaiting hconfirm hopen => exact absurd hopen hdecides
  | concluding hsettled hrest =>
    obtain ⟨replies, r', hreplies, hopen, -, he⟩ := hsettled
    obtain ⟨rfl, rfl, hafter⟩ := eq_of_first hreplies.symm hopen hr
    refine ⟨hafter, hopen, ?_, nofun, fun hexit => absurd (he.symm.trans hexit) nofun,
      fun _ => ⟨rfl, nofun⟩⟩
    cases hrest <;> decide
  | ended hsettled =>
    obtain ⟨replies, r', hreplies, hopen, -, he⟩ := hsettled
    obtain ⟨rfl, rfl, hafter⟩ := eq_of_first hreplies.symm hopen hr
    exact ⟨hafter, hopen, rfl, fun _ => rfl, fun hexit => absurd (he.symm.trans hexit) nofun,
      fun _ => ⟨rfl, fun _ => rfl⟩⟩
  | left hconfirm hclosing hreplies =>
    obtain ⟨replies, r', hreplies, hopen, he⟩ := hreplies.resolve_left hdecides
    obtain ⟨rfl, rfl, hafter⟩ := eq_of_first hreplies.symm hopen hr
    exact ⟨hafter, hopen, rfl, fun _ => rfl, fun _ => hclosing,
      fun hexit => absurd (he.symm.trans hexit) nofun⟩

/-- Where nothing is asked. -/
theorem Inv.unasked (h : Inv responder false log stage) :
    Course.answers log = [] ∧ requests (effects log) = 0 ∧ clears (effects log) ≤ 1 ∧
      (stage.inCommand = false → clears (effects log) = 1) ∧ stage.isBusy = true := by
  obtain ⟨due, hphase, hcount⟩ := h.effects_eq
  have hnone : Course.answers log = [] := by
    cases hphase with
    | concluding hsettled hrest | ended hsettled => exact hsettled
    | left hconfirm | questioning hconfirm | posing hconfirm | asking hconfirm
    | awaiting hconfirm => cases hconfirm
  rw [hnone] at hcount
  have hrequests : requests (effects log) + requests due = 0 := hcount (·.isRequest)
  have hclears : clears (effects log) + clears due = 1 := hcount (·.isClear)
  refine ⟨hnone, by omega, by omega, fun hover => ?_, ?_⟩
  · cases hphase with
    | ended hsettled => exact hclears
    | left hconfirm => cases hconfirm
    | _ => cases hover
  · cases hphase with
    | left hconfirm | awaiting hconfirm => cases hconfirm
    | _ => rfl

/-- As long as no reply decides. -/
theorem Inv.undecided (h : Inv responder true log stage)
    (hopen : ∀ a ∈ Course.answers log, a.decides = false) :
    clears (effects log) = 0 ∧ warnings (effects log) = (Course.answers log).length ∧
      requests (effects log) ≤ (Course.answers log).length + 1 ∧
      (stage.isAwaiting = true → requests (effects log) = (Course.answers log).length + 1) ∧
      (stage.isBusy = true ∨ stage.isAwaiting = true ∨ stage.isClosing = true) ∧
      (stage.inCommand = false → stage.isClosing = true) := by
  obtain ⟨due, hphase, hcount⟩ := h.effects_eq
  obtain ⟨hnone, hawaiting, hclosing⟩ := hphase.of_open hopen
  have hcounts := fun p => countP_open hopen p ▸ hcount p
  generalize (Course.answers log).length = n at hcounts
  have hclears : clears (effects log) + clears due = 0 + n * 0 := hcounts (·.isClear)
  have hwarnings : warnings (effects log) + warnings due = 0 + n * 1 := hcounts (·.isWarning)
  have hrequests : requests (effects log) + requests due = 1 + n * 1 := hcounts (·.isRequest)
  have hdue := hphase.warnings_due
  refine ⟨by omega, by omega, by omega, fun hwait => ?_, hclosing⟩
  rw [hawaiting hwait] at hrequests
  change requests (effects log) + 0 = _ at hrequests
  omega

/-- When a reply has decided. -/
theorem Inv.decided (h : Inv responder true log stage) {before after : List Answer} {r : Answer}
    (hreplies : Course.answers log = before ++ r :: after) (hr : r.decides = true) :
    after = [] ∧ (∀ a ∈ before, a.decides = false) ∧ warnings (effects log) = before.length ∧
      requests (effects log) = before.length + 1 ∧
      clears (effects log) ≤ (if r.consents then 1 else 0) ∧
      (stage.inCommand = false → clears (effects log) = if r.consents then 1 else 0) ∧
      (r.isExit = true → stage.isClosing = true) ∧
      (r.isExit = false → stage.isBusy = true ∧
        (stage.inCommand = false → stage = .asking false (.input (.session responder)))) := by
  obtain ⟨due, hphase, hcount⟩ := h.effects_eq
  rw [hreplies] at hphase hcount
  obtain ⟨rfl, hopen, hunasked, hdone, hleft, hgoesOn⟩ := hphase.decided hr
  have hcounts : ∀ p : Effect → Bool, (effects log).countP p + due.countP p =
      (opening true).countP p +
        (before.length * [Effect.warn, .request true].countP p + (reaction r).countP p) := by
    intro p
    rw [hcount, List.flatMap_append, List.countP_append, countP_open hopen, List.flatMap_singleton]
  obtain ⟨hclear, hwarning, hrequest⟩ := counts_reaction hr
  generalize before.length = n at hcounts
  have hclears : clears (effects log) + clears due = 0 + (n * 0 + clears (reaction r)) :=
    hcounts (·.isClear)
  have hwarnings : warnings (effects log) + warnings due = 0 + (n * 1 + warnings (reaction r)) :=
    hcounts (·.isWarning)
  have hrequests : requests (effects log) + requests due = 1 + (n * 1 + requests (reaction r)) :=
    hcounts (·.isRequest)
  have hdue := hphase.warnings_due
  refine ⟨rfl, hopen, by omega, by omega, by omega, fun hover => ?_, hleft, hgoesOn⟩
  rw [hdone hover] at hclears
  change clears (effects log) + 0 = _ at hclears
  omega

/-- What is left of a settled command takes three turns at most. -/
theorem Phase.ends {replies : List Answer} {due : List Effect}
    (h : Phase responder confirm replies due stage)
    (hsettled : confirm = false ∨ ∃ a ∈ replies, a.decides = true) (w₁ w₂ w₃ : World) :
    ∃ n ≤ 3, (stage.after ([w₁, w₂, w₃].take n)).inCommand = false := by
  have hopen : confirm = true → ¬∀ a ∈ replies, a.decides = false := by
    rintro hconfirm hopen
    rcases hsettled with hoff | ⟨a, ha, hd⟩
    · cases hconfirm.symm.trans hoff
    · cases hd.symm.trans (hopen a ha)
  cases h with
  | questioning hconfirm hnone | posing hconfirm hnone =>
    exact absurd (hnone ▸ nofun) (hopen hconfirm)
  | asking hconfirm hnone | awaiting hconfirm hnone => exact absurd hnone (hopen hconfirm)
  | concluding _ hrest =>
    cases hrest with
    | clear => exact ⟨3, Nat.le_refl 3, rfl⟩
    | cleared | kept => exact ⟨2, by decide, rfl⟩
    | finish => exact ⟨1, by decide, rfl⟩
  | ended => exact ⟨0, Nat.zero_le 3, rfl⟩
  | left hconfirm hclosing => exact ⟨0, Nat.zero_le 3, inCommand_of_isClosing hclosing⟩

end

/-- **The conversation is cleared on consent only.** In every run of the command, whatever happens
to the world between its turns, each turn does what is read off it and nothing else; and what is
done is what the replies call for, in their order, up to what is still due.

If the settings say not to ask, nothing is asked and the conversation is cleared once. Otherwise, as
long as no reply decides, each has caused one warning and, when the next is awaited, one more
request; a reply that decides is the last, no request comes after it, and it has the conversation
cleared once if it consents, and never if it does not. An exit word ends the session; after another
reply that decides the command comes to its end in three turns, and the session asks for its own
next line. -/
theorem clear_on_consent (h : Clearing d responder settings log stage w) :
    let replies := Course.answers log
    let done := effects log
    (∀ v ∈ log, v.Does v.effect?) ∧
    done <+: opening settings.confirmClear ++ replies.flatMap reaction ∧
    (settings.confirmClear = false →
      replies = [] ∧ requests done = 0 ∧ clears done ≤ 1 ∧
      (stage.inCommand = false → clears done = 1) ∧ stage.isBusy = true) ∧
    (settings.confirmClear = true → (∀ a ∈ replies, a.decides = false) →
      clears done = 0 ∧ warnings done = replies.length ∧ requests done ≤ replies.length + 1 ∧
      (stage.isAwaiting = true → requests done = replies.length + 1) ∧
      (stage.isBusy = true ∨ stage.isAwaiting = true ∨ stage.isClosing = true) ∧
      (stage.inCommand = false → stage.isClosing = true)) ∧
    (settings.confirmClear = true → ∀ before r after, replies = before ++ r :: after →
      r.decides = true →
      after = [] ∧ (∀ a ∈ before, a.decides = false) ∧ warnings done = before.length ∧
      requests done = before.length + 1 ∧ clears done ≤ (if r.consents then 1 else 0) ∧
      (stage.inCommand = false → clears done = if r.consents then 1 else 0) ∧
      (r.isExit = true → stage.isClosing = true) ∧
      (r.isExit = false → stage.isBusy = true ∧
        (stage.inCommand = false → stage = .asking false (.input (.session responder))))) ∧
    (settings.confirmClear = false ∨ (∃ a ∈ replies, a.decides = true) →
      ∀ w₁ w₂ w₃, ∃ n ≤ 3, (stage.after ([w₁, w₂, w₃].take n)).inCommand = false) := by
  have hinv := h.inv
  obtain ⟨due, hphase, hdone⟩ := hinv.phase
  refine ⟨hinv.does, ⟨due, hdone⟩, fun hoff => ?_, fun hon => ?_, fun hon before r after => ?_,
    hphase.ends⟩
  all_goals rw [‹settings.confirmClear = _›] at hinv
  · exact hinv.unasked
  · exact hinv.undecided
  · exact hinv.decided

/-- The question is asked again, and the second answer is yes. -/
theorem clear_on_consent_second_answer :
    ∃ log stage w, Clearing [] 0 {} log stage w ∧
      (Course.answers log).map (·.line) = ["maybe", " Yes "] ∧ stage.inCommand = false ∧
      clears (effects log) = 1 ∧ warnings (effects log) = 1 ∧ requests (effects log) = 2 ∧
      w.shared.memory.clears = 1 := by
  let w : World := { shared := { engine := .recording }, bus := Bus.run {} [.connect true] }
  let reply (text : String) (asking : Led) : Bus.Act Message :=
    let request := asking.1.stamp (.lineRequest true)
    let line : Outgoing := { data := .text text, source := .client }
    .publish ⟨request.replyChannel, asking.1.stamp (line.replyTo request)⟩
  let after (led : Led) : Led := led.2.turn led.1
  let replied (text : String) (asking : Led) : Led :=
    let asked := after asking
    ({ asked.1 with bus := asked.1.bus.run [reply text asking, .dispatch] }, asked.2)
  let looked : Led := (start [] 0).turn w
  let asking : Led := after (after looked)
  let again : Led := after (replied "maybe" asking)
  let answered : Led := after (replied " Yes " again)
  let ended : Led := after (after (after answered))
  have hsettings : w.shared.settings = {} := rfl
  have hafter : ∀ {log : List Visit} {led : Led},
      Clearing [] 0 {} log led.2 led.1 → led.2.inCommand = true →
      Clearing [] 0 {} (log ++ [⟨led.2, led.1⟩]) (after led).2 (after led).1 :=
    fun h hrun => h.turn hrun
  have hreplied : ∀ (text : String) {log : List Visit} {led : Led},
      Clearing [] 0 {} log led.2 led.1 → led.2.inCommand = true →
      Clearing [] 0 {} (log ++ [⟨led.2, led.1⟩]) (replied text led).2 (replied text led).1 :=
    fun text _ _ h hrun => (h.turn hrun).others
  have hlooked : Clearing [] 0 {} _ looked.2 looked.1 := .look hsettings
  have hasking : Clearing [] 0 {} _ asking.2 asking.1 :=
    hafter (hafter hlooked (by decide +kernel)) (by decide +kernel)
  have hagain : Clearing [] 0 {} _ again.2 again.1 :=
    hafter (hreplied "maybe" hasking (by decide +kernel)) (by decide +kernel)
  have hanswered : Clearing [] 0 {} _ answered.2 answered.1 :=
    hafter (hreplied " Yes " hagain (by decide +kernel)) (by decide +kernel)
  have hcleared := hafter (hafter hanswered (by decide +kernel)) (by decide +kernel)
  have hrun : ∃ log, Clearing [] 0 {} log ended.2 ended.1 ∧
      (Course.answers log).map (·.line) = ["maybe", " Yes "] ∧
      (Course.answers log).map (·.decides) = [false, true] ∧
      (Course.answers log).map (·.consents) = [false, true] :=
    ⟨_, hafter hcleared (by decide +kernel), by decide +kernel, by decide +kernel,
      by decide +kernel⟩
  have hover : ended.2.inCommand = false := by decide +kernel
  have hmemory : ended.1.shared.memory.clears = 1 := by decide +kernel
  obtain ⟨log, h, hlines, hdecides, hconsents⟩ := hrun
  obtain ⟨a, r, hreplies⟩ : ∃ a r, Course.answers log = [a, r] := by
    have hlength := congrArg List.length hlines
    rw [List.length_map] at hlength
    exact List.length_eq_two.1 hlength
  rw [hreplies] at hdecides hconsents
  have hr : r.decides = true := (List.cons.inj (List.cons.inj hdecides).2).1
  have hc : r.consents = true := (List.cons.inj (List.cons.inj hconsents).2).1
  obtain ⟨-, -, -, -, hdecided, -⟩ := clear_on_consent h
  obtain ⟨-, -, hwarnings, hrequests, -, hclears, -⟩ := hdecided rfl [a] r [] hreplies hr
  have honce := hclears hover
  rw [hc, if_pos rfl] at honce
  exact ⟨log, ended.2, ended.1, h, hlines, hover, honce, hwarnings, hrequests, hmemory⟩

end Clearing

namespace Stage

/-- A line with the name of the command alone has a session run it. -/
theorem useLine_clear {w : World} (hw : w.shared.registry = Registry.ofCommands Command.builtins)
    {line rest : String} (hrest : commandLine? line = some rest)
    (hwords : Words.split rest = .ok ["clear"]) (responder : TaskId) :
    useLine (.input (.session responder)) (.ok line) w =
      (w, Clearing.start w.shared.registry.directory responder) := by
  simp only [useLine, hrest, Registry.lineScript, hwords]
  rw [hw]
  rfl

end Stage

/-- The turns that a session takes from the first step of the command on, as long as that has not
come to its end, are a run of it. -/
theorem Course.clearing {d : Directory} {responder : TaskId} {log before after : List Visit}
    {stage : Stage} {w : World} {v : Visit} (h : Course log stage w)
    (hlog : log = before ++ v :: after) (hv : v.stage = Clearing.start d responder)
    (hafter : ∀ u ∈ after, u.stage.inCommand = true) :
    Clearing d responder v.world.shared.settings (v :: after) stage w := by
  induction h generalizing after with
  | start hb hr => simp at hlog
  | @turn log stage w h ih =>
    rcases split_concat hlog with ⟨-, rfl, rfl⟩ | ⟨init, rfl, hinit⟩
    · dsimp only at hv
      subst hv
      exact .look rfl
    · have hrun := hafter ⟨stage, w⟩ (List.mem_append_right _ List.mem_cons_self)
      exact (ih hinit fun u hu => hafter u (List.mem_append_left _ hu)).turn hrun
  | others h hw ih => exact (ih hlog hafter).others

end Parley
