import Parley.Proofs.Session.Dialogue
import Parley.Proofs.Session.Exchange
import Parley.Proofs.Session.Loop
import Parley.Proofs.Terminal.Replies
import Parley.Terminal.Play

/-!
# The end of input

A `Sitting` is a world with a session and a terminal in it, and a record of the turns of the one and
the replies of the other. It goes on (`Sitting.Step`) when either of them takes a turn, when the user
enters lines, ends the input or presses the key, or when anybody else does anything but reply to a
request for a line, change the settings, or touch the two tasks.

Every answer that the session reads is a reply of the terminal to the request it has asked last, and
after the end of input the terminal replies with its exit word. So the end of input ends the session,
unless a command has dropped that word from the exit words (`Sitting.closes_at_end`). The terminal
is not told of that, and then its answer is taken for a line like any other
(`Play.exit_word_taken_for_line`).
-/

set_option autoImplicit false

namespace Parley

open Exchange (Stands)

structure Sitting where
  world : World
  /-- The turns of the session. -/
  log : List Visit := []
  /-- The replies of the terminal. -/
  replies : List Terminal.Reply := []

namespace Sitting

/-- What the user does at the terminal. -/
inductive Touches (t : Terminal) : Terminal → Prop
  | enter (lines : List String) : Touches t { t with lines := t.lines ++ lines }
  | endInput : Touches t { t with inputEnded := true }
  | pressKey : Touches t { t with keyPressed := true }

/-- A step, where `s` is the task of the session and `d` that of the terminal. Commands and engine do
not reply to requests for a line. -/
inductive Step (s d : TaskId) (x : Sitting) : Sitting → Prop
  | session {stage : Stage} {rest : List TaskId} (h : x.world.ready = s :: rest)
    (hs : Stands x.world s (.session stage))
    (hb : stage.isForeign = true → Bus.Replying [] x.world.bus (x.world.step program).bus) :
    Step s d x { x with
      world := x.world.step program
      log := x.log ++ [⟨stage, { x.world with ready := rest }⟩] }
  | terminal {t : Terminal} {rest : List TaskId} (h : x.world.ready = d :: rest)
    (ht : Stands x.world d (.terminal t)) :
    Step s d x { x with
      world := x.world.step program
      replies := x.replies ++ (t.reply? { x.world with ready := rest }).toList }
  | user {t t' : Terminal} (ht : Stands x.world d (.terminal t)) (h : Touches t t')
    (signal : Signal) :
    Step s d x { x with world := (x.world.place d (.terminal t')).signal signal }
  | others {w : World} (hb : Bus.Replying [] x.world.bus w.bus)
    (hw : w.shared.settings = x.world.shared.settings)
    (ht : ∀ i, i = s ∨ i = d → w.task? i = x.world.task? i) :
    Step s d x { x with world := w }

/-- What a sitting comes to at which the terminal has an exit word of the session at the start. -/
inductive Reached (s d : TaskId) (word : String) : Sitting → Prop
  | start {w : World} {t : Terminal} (hb : Bus.Replying [] {} w.bus)
    (hs : Stands w s (.session (.unstarted .session))) (ht : Stands w d (.terminal t))
    (hword : t.exitWord = word) (hexit : w.shared.settings.isExitWord word = true) :
    Reached s d word { world := w }
  | step {x y : Sitting} (hx : Reached s d word x) (h : Step s d x y) : Reached s d word y

/-! ## What holds of every sitting -/

/-- The session has read an exit word. -/
def Exited (log : List Visit) : Prop := ∃ v ∈ log, ∃ a, v.answer? = some a ∧ a.isExit = true

/-- What holds of the session where it stands. -/
structure Sits (x : Sitting) (stage : Stage) : Prop where
  inLoop : stage.InLoop
  closing : Exited x.log → stage.isClosing = true
  awaited : ∀ reply use, stage = .awaitingLine reply use → ∃ request,
    (Course.requests x.log).getLast? = some request ∧ request.channel = Channel.inputRequest ∧
      x.world.bus.Granted reply (.channel request.replyChannel)

/-- What holds of a turn of the session after the turns `before`. -/
structure Entry (word : String) (replies : List Terminal.Reply) (before : List Visit) (v : Visit) :
    Prop where
  closing : Exited before → v.stage.isClosing = true
  remains : (∀ u ∈ before, ¬u.Drops word) → v.world.shared.settings.isExitWord word = true
  answer : ∀ a, v.answer? = some a → ∃ request r, (Course.requests before).getLast? = some request ∧
    r ∈ replies ∧ a.event = r.event ∧ r.request.id = request.id

structure Inv (s d : TaskId) (word : String) (x : Sitting) : Prop where
  agrees : x.world.bus.Agrees
  addressed : x.world.bus.Addressed
  carries : x.world.bus.Carries fun e => e.IsLineReply → ∃ r ∈ x.replies, e = r.event
  session : ∀ stage, Stands x.world s (.session stage) → x.Sits stage
  terminal : ∀ t c, x.world.task? d = some ⟨d, .own (.terminal t), c⟩ → t.exitWord = word
  remains : (∀ v ∈ x.log, ¬v.Drops word) → x.world.shared.settings.isExitWord word = true
  replies : ∀ r ∈ x.replies, r.message.text? = some r.line ∧ (r.atEnd = true → r.line = word)
  entries : ∀ before v after, x.log = before ++ v :: after → Entry word x.replies before v

variable {s d : TaskId} {word : String} {x y : Sitting}

theorem exited_concat {log : List Visit} {v : Visit} (h : Exited (log ++ [v])) :
    Exited log ∨ ∃ a, v.answer? = some a ∧ a.isExit = true := by
  obtain ⟨u, hu, hexit⟩ := h
  rcases List.mem_append.1 hu with hu | hu
  · exact .inl ⟨u, hu, hexit⟩
  · exact .inr (List.mem_singleton.1 hu ▸ hexit)

/-- What is known stays known when the session has not had a turn. -/
theorem Inv.frame (hx : Inv s d word x) {own : List (Event Message)}
    (hbus : Bus.Replying own x.world.bus y.world.bus) (hown : ∀ e ∈ own, ∃ r ∈ y.replies, e = r.event)
    (hlog : y.log = x.log) (hold : ∀ r ∈ x.replies, r ∈ y.replies)
    (hsettings : y.world.shared.settings = x.world.shared.settings)
    (hs : ∀ stage, Stands y.world s (.session stage) → Stands x.world s (.session stage))
    (ht : ∀ t c, y.world.task? d = some ⟨d, .own (.terminal t), c⟩ → t.exitWord = word)
    (hnew : ∀ r ∈ y.replies,
      r ∈ x.replies ∨ r.message.text? = some r.line ∧ (r.atEnd = true → r.line = word)) :
    Inv s d word y := by
  have hcarries : x.world.bus.Carries fun e => e.IsLineReply → ∃ r ∈ y.replies, e = r.event :=
    hx.carries.mono fun e he hreply => (he hreply).imp fun r hr => ⟨hold r hr.1, hr.2⟩
  refine ⟨?_, ?_, hbus.carries hx.agrees hcarries hown, fun stage hstage => ?_, ht, ?_,
    fun r hr => (hnew r hr).elim (hx.replies r) id, fun before v after hsplit => ?_⟩
  · obtain ⟨acts, hacts, -⟩ := hbus
    exact hacts ▸ hx.agrees.run acts
  · obtain ⟨acts, hacts, -⟩ := hbus
    exact hacts ▸ hx.agrees.addressed_run hx.addressed acts
  · have hsits := hx.session stage (hs stage hstage)
    refine ⟨hsits.inLoop, hlog ▸ hsits.closing, fun reply use hreply => ?_⟩
    obtain ⟨request, hlast, hchannel, hgranted⟩ := hsits.awaited reply use hreply
    obtain ⟨acts, hacts, -⟩ := hbus
    exact ⟨request, hlog ▸ hlast, hchannel, hacts ▸ hx.agrees.granted_run hgranted acts⟩
  · rw [hlog, hsettings]
    exact hx.remains
  · have hentry := hx.entries before v after (hlog ▸ hsplit)
    refine ⟨hentry.closing, hentry.remains, fun a ha => ?_⟩
    obtain ⟨request, r, hlast, hr, hevent, hid⟩ := hentry.answer a ha
    exact ⟨request, r, hlast, hold r hr, hevent, hid⟩

/-! ## Turns of the session -/

/-- What the session reads is the terminal's reply to the request it has asked last. -/
theorem Inv.answered (hx : Inv s d word x) {stage : Stage} (hs : x.Sits stage)
    {w : World} (hw : w.bus = x.world.bus) {a : Answer} (ha : Visit.answer? ⟨stage, w⟩ = some a) :
    ∃ request r, (Course.requests x.log).getLast? = some request ∧ r ∈ x.replies ∧
      a.event = r.event ∧ r.request.id = request.id := by
  cases stage with
  | awaitingLine reply use =>
    obtain ⟨request, hlast, hchannel, hgranted⟩ := hs.awaited reply use rfl
    simp only [Visit.answer?] at ha
    split at ha
    · next event hpeek =>
      cases ha
      have hread : (x.world.bus.read reply).1 = .event event := by rw [← hw]; exact hpeek
      have hcovers := eq_of_beq (Bus.covers_of_read hx.addressed hgranted hread)
      have hreply : event.IsLineReply := ⟨request.id, by rw [← hcovers, ← hchannel]; rfl⟩
      obtain ⟨r, hr, rfl⟩ := Bus.carries_of_read hx.carries hread hreply
      exact ⟨request, r, hlast, hr, rfl, (Channel.reply_inj hcovers).2.symm⟩
    · cases ha
  | _ => cases ha

/-- The turn that asks for a line leads to the wait for the reply to it. -/
theorem awaited_asking {w : World} (hw : w.bus.Agrees) {plain : Bool} {use : LineUse} :
    ((Stage.asking plain use).turn w).1.bus.Granted (w.send (.lineRequest plain)).nextSubscription
      (.channel (w.stamp (.lineRequest plain)).replyChannel) := by
  have hasked : (w.send (.lineRequest plain)).bus.Agrees := by
    obtain ⟨acts, hacts⟩ := (calls_send w (.lineRequest plain)).bus
    exact hacts ▸ hw.run acts
  have hbus : ((Stage.asking plain use).turn w).1.bus = (w.send (.lineRequest plain)).bus.subscribe
      (.channel (w.stamp (.lineRequest plain)).replyChannel) := (Schedule.roused_nudge _).bus
  rw [hbus]
  exact hasked.granted_subscribe _

/-- The session after its turn. -/
theorem Inv.sits_turn (hx : Inv s d word x) {stage : Stage} (hs : x.Sits stage) {rest : List TaskId}
    {v : Visit} (hv : v = ⟨stage, { x.world with ready := rest }⟩) (hlog : y.log = x.log ++ [v])
    (hbus : y.world.bus = (stage.turn v.world).1.bus) : y.Sits (stage.turn v.world).2 := by
  subst hv
  refine ⟨Stage.inLoop_turn hs.inLoop _, fun hexited => ?_, fun reply use hreply => ?_⟩
  · rw [hlog] at hexited
    rcases exited_concat hexited with hexited | ⟨a, ha, he⟩
    · exact Stage.isClosing_turn (hs.closing hexited) _
    · exact Stage.isClosing_of_exit hs.inLoop ha he
  · rw [hlog, Course.requests_concat, hbus]
    have hawaiting : (stage.turn { x.world with ready := rest }).2.isAwaiting = true := by
      rw [hreply]
      rfl
    -- the wait begins with the turn that asks, or it began with an earlier one
    rcases Stage.awaiting_of_turn hs.inLoop hawaiting with ⟨plain, use', rfl⟩ | hstays
    · cases hreply
      refine ⟨_, List.getLast?_concat, rfl, awaited_asking (w := { x.world with ready := rest }) hx.agrees⟩
    · rw [hstays] at hreply ⊢
      obtain rfl : stage = .awaitingLine reply use := hreply
      obtain ⟨request, hlast, hchannel, hgranted⟩ := hs.awaited reply use rfl
      exact ⟨request, by rw [← hlast]; simp [Visit.request?], hchannel, hgranted⟩

theorem Inv.step_session (hx : Inv s d word x) {stage : Stage} {rest : List TaskId}
    (h : x.world.ready = s :: rest) (hs : Stands x.world s (.session stage))
    (hb : stage.isForeign = true → Bus.Replying [] x.world.bus (x.world.step program).bus) :
    Inv s d word { x with
      world := x.world.step program
      log := x.log ++ [⟨stage, { x.world with ready := rest }⟩] } := by
  let v : Visit := ⟨stage, { x.world with ready := rest }⟩
  have hsits := hx.session stage hs
  have hstep : x.world.step program = Schedule.settleTurn s (sessionTurn (stage.turn v.world)) :=
    Schedule.step_own h hs
  obtain ⟨hbus, hshared, htasks⟩ :=
    Schedule.settleTurn_spec (sessionTurn_progress (stage.turn v.world)) s
  rw [← hstep] at hbus hshared htasks
  change _ = (stage.turn v.world).1.bus at hbus
  change _ = (stage.turn v.world).1.shared at hshared
  have hreplying : Bus.Replying [] x.world.bus (x.world.step program).bus := by
    cases hforeign : stage.isForeign with
    | true => exact hb hforeign
    | false => exact hbus ▸ Stage.replying_turn hforeign v.world
  have hcarries := hreplying.carries hx.agrees hx.carries nofun
  obtain ⟨acts, hacts, -⟩ := hreplying
  refine ⟨hacts ▸ hx.agrees.run acts, hacts ▸ hx.agrees.addressed_run hx.addressed acts, hcarries,
    fun stage' hstage' => ?_, fun t c ht => ?_, fun hdrops => ?_, hx.replies,
    fun before u after hsplit => ?_⟩
  · obtain rfl : stage' = (stage.turn v.world).2 := by
      have hplaced := (htasks s).symm.trans hstage'
      cases Schedule.eq_of_placed hplaced
      rfl
    exact hx.sits_turn hsits rfl rfl hbus
  · rw [htasks] at ht
    obtain ⟨c', hc'⟩ := stage.terminals_turn v.world (Schedule.task?_of_place ht (by simp))
    exact hx.terminal t c' hc'
  · rw [hshared]
    refine Visit.isExitWord_next (v := v) (hx.remains fun u hu => ?_) (hdrops v ?_)
    · exact hdrops u (List.mem_append_left _ hu)
    · exact List.mem_append_right _ List.mem_cons_self
  · -- what has been known of the session so far is what holds of its latest turn
    rcases Course.split_concat hsplit with ⟨rfl, rfl, -⟩ | ⟨after, -, hsplit⟩
    · exact ⟨hsits.closing, hx.remains, fun a ha => hx.answered hsits rfl ha⟩
    · exact hx.entries before u after hsplit

/-! ## Turns of the terminal, and what the user does -/

theorem Inv.step_terminal (hx : Inv s d word x) {t : Terminal} {rest : List TaskId}
    (h : x.world.ready = d :: rest) (ht : Stands x.world d (.terminal t)) :
    Inv s d word { x with
      world := x.world.step program
      replies := x.replies ++ (t.reply? { x.world with ready := rest }).toList } := by
  let w : World := { x.world with ready := rest }
  have hstep : x.world.step program = Schedule.settleTurn d (t.turn w) := Schedule.step_own h ht
  obtain ⟨hspeaks, t', hword, hgoes⟩ := t.turns_turn w
  obtain ⟨hbus, hshared, htasks⟩ := Schedule.settleTurn_spec hgoes d
  rw [← hstep] at hbus hshared htasks
  refine hx.frame (hbus ▸ hspeaks.bus) (fun e he => ?_) rfl
    (fun r hr => List.mem_append_left _ hr) (by rw [hshared, hspeaks.shared]) (fun stage hs => ?_)
    (fun t'' c hd => ?_) fun r hr => ?_
  · obtain ⟨r, hr, rfl⟩ := List.mem_map.1 he
    exact ⟨r, List.mem_append_right _ hr, rfl⟩
  · rw [Stands, htasks] at hs
    have hstood := Schedule.task?_of_place hs (by simp)
    rw [Schedule.task?, hspeaks.tasks] at hstood
    exact hstood
  · rw [htasks] at hd
    cases Schedule.eq_of_placed hd
    rw [hword]
    exact hx.terminal t false ht
  · refine (List.mem_append.1 hr).imp_right fun hr => ?_
    have hspec := Terminal.reply?_spec (Option.mem_toList.1 hr)
    rwa [hx.terminal t false ht] at hspec

theorem Inv.step_user (hx : Inv s d word x) {t t' : Terminal} (ht : Stands x.world d (.terminal t))
    (h : Touches t t') (signal : Signal) :
    Inv s d word { x with world := (x.world.place d (.terminal t')).signal signal } := by
  have hroused := Schedule.roused_signal (x.world.place d (.terminal t')) signal
  have hword : t'.exitWord = word := by
    rw [← hx.terminal t false ht]
    cases h <;> rfl
  have hbus : Bus.Replying [] x.world.bus
      ((x.world.place d (.terminal t')).signal signal).bus := by
    rw [hroused.bus]
    exact .refl
  refine hx.frame hbus nofun rfl (fun r hr => hr) ?_ (fun stage hs => ?_)
    (fun t'' c hd => ?_) fun r hr => .inl hr
  · rw [hroused.same]
    rfl
  · rw [Stands, hroused.task?] at hs
    exact Schedule.task?_of_place hs (by simp)
  · rw [hroused.task?] at hd
    cases Schedule.eq_of_placed hd
    exact hword

theorem inv_of_reached (h : Reached s d word x) : Inv s d word x := by
  induction h with
  | @start w t hb hs ht hword hexit =>
    have hcarries := hb.carries Bus.agrees_empty (p := fun _ => False) (Bus.carries_empty _) nofun
    obtain ⟨acts, hacts, -⟩ := hb
    refine ⟨hacts ▸ Bus.agrees_run acts, hacts ▸ Bus.addressed_run acts,
      hcarries.mono fun e he hreply => (he hreply).elim, fun stage hstage => ?_, fun t' c hd => ?_,
      fun _ => hexit, nofun, fun before v after hsplit => by simp at hsplit⟩
    · cases hs.symm.trans hstage
      exact ⟨.inl rfl, fun ⟨v, hv, _⟩ => absurd hv List.not_mem_nil, nofun⟩
    · cases ht.symm.trans hd
      exact hword
  | step _ h ih =>
    cases h with
    | session h hs hb => exact ih.step_session h hs hb
    | terminal h ht => exact ih.step_terminal h ht
    | user ht h signal => exact ih.step_user ht h signal
    | others hb hw ht =>
      refine ih.frame hb nofun rfl (fun r hr => hr) hw (fun stage hs => ?_) (fun t c hd => ?_)
        fun r hr => .inl hr
      · rw [Stands, ← ht s (.inl rfl)]
        exact hs
      · rw [ht d (.inr rfl)] at hd
        exact ih.terminal t c hd

/-! ## The answer after the end of input -/

/-- After an exit word the session only closes. -/
theorem Inv.closes (hx : Inv s d word x) {before after : List Visit} {v : Visit} {a : Answer}
    (hlog : x.log = before ++ v :: after) (ha : v.answer? = some a) (he : a.isExit = true) :
    (∀ u ∈ after, u.stage.isClosing = true) ∧
      ∀ stage, Stands x.world s (.session stage) → stage.isClosing = true := by
  refine ⟨fun u hu => ?_, fun stage hs => ?_⟩
  · obtain ⟨between, rest, rfl⟩ := List.append_of_mem hu
    have hsplit : x.log = (before ++ v :: between) ++ u :: rest := by rw [hlog]; simp
    refine (hx.entries _ u rest hsplit).closing ⟨v, ?_, a, ha, he⟩
    exact List.mem_append_right _ List.mem_cons_self
  · refine (hx.session stage hs).closing ⟨v, ?_, a, ha, he⟩
    rw [hlog]
    exact List.mem_append_right _ List.mem_cons_self

/-- **The end of input ends the session.** Whatever the session reads is a reply of the terminal to
the request it has asked last. If that was given after the end of input, and no command has dropped
the terminal's exit word by then, the line is the wish to leave, and the session only closes from
there on. -/
theorem closes_at_end (h : Reached s d word x) {before after : List Visit} {v : Visit} {a : Answer}
    (hlog : x.log = before ++ v :: after) (ha : v.answer? = some a) :
    ∃ request r, (Course.requests before).getLast? = some request ∧ r ∈ x.replies ∧
      a.event = r.event ∧ r.request.id = request.id ∧
      (r.atEnd = true → (∀ u ∈ before, ¬u.Drops word) →
        Stage.lineOf a.settings a.event.payload = .error .sessionExit ∧
        (∀ u ∈ after, u.stage.isClosing = true) ∧
        ∀ stage, Stands x.world s (.session stage) → stage.isClosing = true) := by
  have hinv := inv_of_reached h
  have hentry := hinv.entries before v after hlog
  obtain ⟨request, r, hlast, hr, hevent, hid⟩ := hentry.answer a ha
  refine ⟨request, r, hlast, hr, hevent, hid, fun hend hkept => ?_⟩
  obtain ⟨htext, hword⟩ := hinv.replies r hr
  have hline : a.line = word := by
    rw [Answer.line, hevent, show r.event.payload.text? = _ from htext, hword hend]
    rfl
  have hsettings : a.settings = v.world.shared.settings := by
    simp only [Visit.answer?] at ha
    split at ha
    · split at ha
      · cases ha
        rfl
      · cases ha
    · cases ha
  have hexit : a.isExit = true := by
    rw [Answer.isExit, hline, hsettings]
    exact hentry.remains hkept
  refine ⟨?_, hinv.closes hlog ha hexit⟩
  rw [Visit.lineOf_answer, if_pos hexit]

/-! ## Plays -/

/-- A session at a terminal is a sitting, if the terminal's exit word is one of the session. -/
theorem reached_start (context : Context) (lines : List String) (ended : Bool)
    (h : context.settings.isExitWord (Play.exitWord context.settings) = true) :
    Reached 0 1 (Play.exitWord context.settings)
      { world := (Play.start context [] lines ended).world } := by
  refine .start ⟨[.subscribe (.channel Channel.default), .subscribe (.channel Channel.inputRequest),
    .subscribe (.channel Channel.sessionExit)], rfl, nofun⟩ rfl rfl rfl h

/-- The session takes its turn, from the given stage. -/
def sessionTurn (x : Sitting) (stage : Stage) : Sitting :=
  { x with
    world := x.world.step program
    log := x.log ++ [⟨stage, { x.world with ready := x.world.ready.tail }⟩] }

theorem Reached.sessionTurn (h : Reached s d word x) (stage : Stage)
    (hready : x.world.ready.head? = some s) (hs : Stands x.world s (.session stage))
    (hforeign : stage.isForeign = false) : Reached s d word (x.sessionTurn stage) := by
  obtain ⟨rest, hrest⟩ := List.head?_eq_some_iff.1 hready
  have hstep := Step.session (d := d) hrest hs fun hf => by
    rw [hforeign] at hf
    cases hf
  rw [show rest = x.world.ready.tail by rw [hrest]; rfl] at hstep
  exact h.step hstep

/-- The terminal takes its turn, from where it stands. -/
def terminalTurn (x : Sitting) (t : Terminal) : Sitting :=
  { x with
    world := x.world.step program
    replies := x.replies ++ (t.reply? { x.world with ready := x.world.ready.tail }).toList }

theorem Reached.terminalTurn (h : Reached s d word x) (t : Terminal)
    (hready : x.world.ready.head? = some d) (ht : Stands x.world d (.terminal t)) :
    Reached s d word (x.terminalTurn t) := by
  obtain ⟨rest, hrest⟩ := List.head?_eq_some_iff.1 hready
  have hstep := Step.terminal (s := s) hrest ht
  rw [show rest = x.world.ready.tail by rw [hrest]; rfl] at hstep
  exact h.step hstep

/-- The dispatcher hands one event out, and then others take that many turns. -/
def handed (x : Sitting) (turns : Nat) : Sitting :=
  { x with world := Nat.repeat (fun w : World => w.step program) turns x.world }

theorem Reached.handed (h : Reached s d word x) (turns : Nat)
    (hbus : (x.handed turns).world.bus = x.world.bus.dispatch)
    (hw : (x.handed turns).world.shared.settings = x.world.shared.settings)
    (hs : (x.handed turns).world.task? s = x.world.task? s)
    (hd : (x.handed turns).world.task? d = x.world.task? d) :
    Reached s d word (x.handed turns) := by
  refine h.step (.others ⟨[.dispatch], hbus, nofun⟩ hw fun i hi => ?_)
  rcases hi with rfl | rfl
  · exact hs
  · exact hd

/-- A session has started, at a terminal at which nothing is entered. -/
def started : Sitting :=
  { world := (Play.start {} [] [] true).world : Sitting }.sessionTurn (.unstarted .session)

/-- The first request of the session. -/
def request : Message := started.world.stamp (.lineRequest false)

/-- The terminal before the request, with the request, and when it has replied. -/
def watching : Terminal :=
  { output := 0, requests := 1, exits := 2, exitWord := "q", inputEnded := true }

def prompted : Terminal := { watching with pending := some request, printed := [.prompt false] }

def replied : Terminal := { watching with printed := [.prompt false, .lineEnd] }

/-- The session has asked for a line, and the request has been handed out. -/
def asked : Sitting :=
  ((started.sessionTurn (.asking false (.input (.session 3)))).terminalTurn watching).handed 3

theorem reached_asked : Reached 0 1 "q" asked := by
  have hstart := reached_start {} [] true (by decide)
  have hstarted : Reached 0 1 "q" started := hstart.sessionTurn (.unstarted .session) rfl rfl rfl
  have hasking := hstarted.sessionTurn (.asking false (.input (.session 3))) rfl rfl rfl
  exact (hasking.terminalTurn watching rfl rfl).handed 3 rfl rfl rfl rfl

/-- The terminal has replied, and the reply has been handed out. -/
def answered : Sitting :=
  (((asked.terminalTurn watching).terminalTurn prompted).terminalTurn replied).handed 2

theorem reached_answered : Reached 0 1 "q" answered := by
  have hprompted : Reached 0 1 "q" (asked.terminalTurn watching) :=
    reached_asked.terminalTurn watching rfl rfl
  have hreplied : Reached 0 1 "q" ((asked.terminalTurn watching).terminalTurn prompted) :=
    hprompted.terminalTurn prompted rfl rfl
  exact (hreplied.terminalTurn replied rfl rfl).handed 2 rfl rfl rfl rfl

/-- The session is about to read the reply. -/
def reading : Visit :=
  ⟨.awaitingLine 4 (.input (.session 3)),
    { answered.world with ready := answered.world.ready.tail }⟩

theorem closes_at_end_at_once : ∃ x before v a r, Reached 0 1 "q" x ∧ x.log = before ++ [v] ∧
    v.answer? = some a ∧ r ∈ x.replies ∧ r.atEnd = true ∧ a.event = r.event ∧
    Stage.lineOf a.settings a.event.payload = .error .sessionExit := by
  have hread : Reached 0 1 "q" (answered.sessionTurn reading.stage) :=
    reached_answered.sessionTurn reading.stage rfl rfl rfl
  have hlog : (answered.sessionTurn reading.stage).log = answered.log ++ [reading] := rfl
  have hsome : reading.answer?.isSome = true := by decide +kernel
  obtain ⟨a, ha⟩ := Option.isSome_iff_exists.1 hsome
  obtain ⟨_, r, -, hr, hevent, -, hcloses⟩ := closes_at_end hread hlog ha
  have hend : ∀ r ∈ (answered.sessionTurn reading.stage).replies, r.atEnd = true := by
    decide +kernel
  have hkept : ∀ u ∈ answered.log, ¬u.Drops "q" := by
    have hnone : ∀ u ∈ answered.log, u.stage.change? = none := by decide +kernel
    rintro u hu ⟨value, hchange, -⟩
    cases (hnone u hu).symm.trans hchange
  exact ⟨_, _, _, a, r, hread, hlog, ha, hr, hend r hr, hevent, (hcloses (hend r hr) hkept).1⟩

end Sitting

/-- A session whose only exit word is "y", and whose engine ends it by the first prompt. A command
names another exit word, and the conversation is to be cleared. The input ends at the question
whether to clear it: the terminal's answer consents, and the next one is a prompt. -/
theorem Play.exit_word_taken_for_line :
    let context : Context :=
      { settings := { exitWords := ["y"] }
        registry := .ofCommands Command.builtins
        engine := { respond := fun _ prompt => .record prompt (.fail .sessionExit)
                    clear := Engine.countClear } }
    let play := Play.whole context [] ["/config exit_words bye", "/clear"] false
    context.settings.isExitWord (Play.exitWord context.settings) = true ∧
      play.world.shared.memory = { prompts := ["y"], clears := 1 } := by
  decide +kernel

end Parley
