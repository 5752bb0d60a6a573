import Parley.Proofs.Bus.Mailbox
import Parley.Proofs.Message.ReplyChannel
import Parley.Proofs.Session.Sending

/-!
# Who replies to a request for a line

A session replies to no such request, unless a command or the engine does (`Stage.replying_turn`).
A terminal gives in its turn the reply `Terminal.reply?` and no other, and it keeps its exit word
(`Terminal.turns_turn`); once no line is left and none will come, that is what it replies with
(`Terminal.reply?_spec`).
-/

set_option autoImplicit false

namespace Parley

/-- The event is on the reply channel of a request for a line. -/
def Event.IsLineReply (e : Event Message) : Prop :=
  ∃ id, e.channel = Channel.reply Channel.inputRequest id

theorem not_isLineReply {channel : String} (h : ':' ∉ channel.toList) (m : Message) :
    ¬Event.IsLineReply ⟨channel, m⟩ := by
  rintro ⟨id, hid⟩
  rw [show channel = _ from hid, Channel.toList_reply] at h
  exact h (List.mem_append_right _ List.mem_cons_self)

/-- The bus `b'` has come from `b`, and of the replies to requests for a line only the given ones have
been published. -/
def Bus.Replying (own : List (Event Message)) (b b' : Bus Message) : Prop :=
  ∃ acts, b' = b.run acts ∧ ∀ e ∈ Bus.published acts, e.IsLineReply → e ∈ own

namespace Bus.Replying

variable {own : List (Event Message)} {b b' b'' : Bus Message}

theorem refl : Replying own b b := ⟨[], rfl, nofun⟩

theorem trans (h : Replying own b b') (h' : Replying own b' b'') : Replying own b b'' := by
  obtain ⟨acts, rfl, hacts⟩ := h
  obtain ⟨acts', rfl, hacts'⟩ := h'
  refine ⟨acts ++ acts', (Bus.run_append b acts acts').symm, fun e he hreply => ?_⟩
  rw [Bus.published_append] at he
  rcases List.mem_append.1 he with he | he
  · exact hacts e he hreply
  · exact hacts' e he hreply

theorem act (a : Bus.Act Message) (h : ∀ e, a.event? = some e → e.IsLineReply → e ∈ own) :
    Replying own b (b.act a) := by
  refine ⟨[a], rfl, fun e he => h e ?_⟩
  obtain ⟨a', ha', he⟩ := List.mem_filterMap.1 he
  rwa [List.mem_singleton.1 ha'] at he

theorem silent {a : Bus.Act Message} (ha : a.event? = none) : Replying own b (b.act a) := by
  refine act a fun e he => ?_
  rw [ha] at he
  cases he

theorem carries (h : Replying own b b') (ha : b.Agrees) {p : Event Message → Prop}
    (hb : b.Carries fun e => e.IsLineReply → p e) (hown : ∀ e ∈ own, p e) :
    b'.Carries fun e => e.IsLineReply → p e := by
  obtain ⟨acts, rfl, hacts⟩ := h
  exact ha.carries_run hb fun e he hreply => hown e (hacts e he hreply)

end Bus.Replying

/-- Tasks and what they share stay, and of the replies to requests for a line only the given ones are
published. -/
structure Speaks (own : List (Event Message)) (w w' : World) : Prop where
  bus : Bus.Replying own w.bus w'.bus
  tasks : w'.tasks = w.tasks
  shared : w'.shared = w.shared

namespace Speaks

variable {own : List (Event Message)} {w w' w'' : World}

theorem refl : Speaks own w w := ⟨.refl, rfl, rfl⟩

theorem trans (h : Speaks own w w') (h' : Speaks own w' w'') : Speaks own w w'' :=
  ⟨h.bus.trans h'.bus, h'.tasks.trans h.tasks, h'.shared.trans h.shared⟩

theorem of_bus {bus : Bus Message} (hb : Bus.Replying own w.bus bus)
    (h : Schedule.Roused { w with bus } w') : Speaks own w w' := by
  refine ⟨?_, h.tasks, ?_⟩
  · rw [h.bus]
    exact hb
  · rw [h.same]

theorem send (o : Outgoing)
    (ho : Event.IsLineReply ⟨o.channel, w.stamp o⟩ → ⟨o.channel, w.stamp o⟩ ∈ own) :
    Speaks own w (w.send o) := by
  have hstamped : Speaks own w { w with stamped := w.stamped + 1 } := ⟨.refl, rfl, rfl⟩
  refine hstamped.trans (.of_bus (.act (.publish ⟨o.channel, w.stamp o⟩) ?_) (Schedule.roused_nudge _))
  rintro e he
  cases he
  exact ho

/-- The channels that every session uses are no reply channels. -/
theorem send_plain (o : Outgoing) (h : ':' ∉ o.channel.toList) : Speaks own w (w.send o) :=
  .send o fun hreply => absurd hreply (not_isLineReply h _)

theorem taken (id : SubscriptionId) : Speaks own w (w.taken id) :=
  .of_bus (.silent (a := .read id) rfl) (.refl _)

theorem release (id : SubscriptionId) : Speaks own w (w.release id) :=
  .of_bus (.silent (a := .drop id) rfl) (.refl _)

theorem releaseAll (ids : List SubscriptionId) : Speaks own w (w.releaseAll ids) := by
  induction ids generalizing w with
  | nil => exact .refl
  | cons id ids ih => exact (release id).trans ih

theorem listen (channel : String) : Speaks own w (w.listen channel) :=
  .of_bus (.silent (a := .subscribe (.channel channel)) rfl) (Schedule.roused_nudge _)

end Speaks

/-! ## A session -/

theorem Deeds.replying {own : List (Event Message)} {w w' : World}
    (h : Deeds (fun e => e.IsLineReply → e ∈ own) w w') : Bus.Replying own w.bus w'.bus := by
  obtain ⟨es, ⟨⟨acts, hacts, -, rfl⟩, -⟩, hes⟩ := h.publishes
  exact ⟨acts, hacts, hes⟩

/-- **A session replies to no request for a line**, unless a command or the engine does. -/
theorem Stage.replying_turn {own : List (Event Message)} {stage : Stage}
    (h : stage.isForeign = false) (w : World) : Bus.Replying own w.bus (stage.turn w).1.bus := by
  have hchange : stage.change? = none := by
    unfold change?
    split
    · cases h
    · rfl
  refine (deeds_turn (fun e he hreply => ?_) hchange (fun hforeign => ?_) w).replying
  · exact absurd hreply (not_isLineReply he e.payload)
  · rw [h] at hforeign
    cases hforeign

/-! ## A terminal -/

namespace Terminal

/-- A reply to a request for a line. -/
structure Reply where
  request : Message
  line : String
  /-- No line was left, and none would come. -/
  atEnd : Bool
  message : Message

def Reply.event (r : Reply) : Event Message := ⟨r.request.replyChannel, r.message⟩

/-- The reply that an entered line is, unless completions are wanted for it. -/
def entered? (request : Message) (line : String) : Option String :=
  match beforeTab? line with
  | some part => if isPlain request then some part else none
  | none => some line

/-- The line with which the terminal replies to the open request in its turn. -/
def line? (t : Terminal) (request : Message) : Option String :=
  match t.lines with
  | line :: _ => entered? request line
  | [] => if t.inputEnded || t.keyPressed then some t.exitWord else none

def replyWith (t : Terminal) (request : Message) (w : World) (line : String) : Reply where
  request
  line
  atEnd := t.lines.isEmpty && t.inputEnded
  message := w.stamp (answer request line)

/-- The reply that the terminal gives in its turn: if it watches everything, there is nothing to print
and no end to find, and a request is open. -/
def reply? (t : Terminal) (w : World) : Option Reply :=
  match t.watch, w.peek t.output, w.peek t.exits, t.pending with
  | .all, .waiting, .waiting, some request => (t.line? request).map (t.replyWith request w)
  | _, _, _, _ => none

/-- The reply carries the line, and after the end of input the exit word. -/
theorem reply?_spec {t : Terminal} {w : World} {r : Reply} (h : t.reply? w = some r) :
    r.message.text? = some r.line ∧ (r.atEnd = true → r.line = t.exitWord) := by
  unfold reply? at h
  split at h
  · next request _ _ _ _ =>
    obtain ⟨line, hline, rfl⟩ := Option.map_eq_some_iff.1 h
    refine ⟨rfl, fun hend => ?_⟩
    obtain ⟨hlines, hended⟩ := Bool.and_eq_true_iff.1 hend
    rw [line?, List.isEmpty_iff.1 hlines] at hline
    simp only [hended, Bool.true_or, if_true] at hline
    exact (Option.some.inj hline).symm
  · cases h

/-- What comes of a turn of a terminal with the given exit word. -/
structure Turns (own : List (Event Message)) (word : String) (w : World)
    (led : World × Progress Activity) : Prop where
  speaks : Speaks own w led.1
  next : ∃ t : Terminal, t.exitWord = word ∧
    (led.2 = .wait (.terminal t) ∨ led.2 = .again (.terminal t))

variable {own : List (Event Message)} {w w' : World}

theorem Turns.after {word : String} {led : World × Progress Activity} (h : Speaks own w w')
    (hled : Turns own word w' led) : Turns own word w led := ⟨h.trans hled.speaks, hled.next⟩

section
variable (t : Terminal) (w : World)

theorem turns_wait : Turns own t.exitWord w (wait t w) := ⟨.refl, t, rfl, .inl rfl⟩

theorem turns_again : Turns own t.exitWord w (again t w) := ⟨.refl, t, rfl, .inr rfl⟩

theorem turns_finish (fault : Option String) : Turns own t.exitWord w (finish t fault w) :=
  ⟨.releaseAll _, { t with watch := .ended fault }, rfl, .inl rfl⟩

/-- The reply to the request with the line is among the given ones. -/
def Owns (own : List (Event Message)) (w : World) (request : Message) (line : String) : Prop :=
  ⟨request.replyChannel, w.stamp (answer request line)⟩ ∈ own

theorem turns_reply (request : Message) (line : String) (hown : Owns own w request line) :
    Turns own t.exitWord w (reply t request line w) :=
  .after (.send (answer request line) fun _ => hown) (turns_again { t with pending := none } _)

theorem turns_pressKey (hown : ∀ request, t.pending = some request → Owns own w request t.exitWord) :
    Turns own t.exitWord w (pressKey t w) := by
  simp only [pressKey]
  split
  · next request hpending =>
    exact turns_reply ({ t with keyPressed := false }.print .lineEnd) w request t.exitWord
      (hown request hpending)
  · split
    · have hchannel : ':' ∉ Channel.interrupt.toList := by decide
      exact .after (.send_plain (.interrupt .client) hchannel)
        (turns_again { t with keyPressed := false, responding := false } _)
    · exact turns_again { t with keyPressed := false } w

theorem turns_rest (hown : t.keyPressed = true →
    ∀ request, t.pending = some request → Owns own w request t.exitWord) :
    Turns own t.exitWord w (rest t w) := by
  unfold rest
  split
  · next hkey => exact turns_pressKey t w (hown hkey)
  · exact turns_wait t w

theorem turns_complete (request : Message) (line : String) :
    Turns own t.exitWord w (complete t request line w) := by
  have hchannel : ':' ∉ Channel.completionRequest.toList := by decide
  exact .after (.send_plain (completionRequest line) hchannel)
    (.after (.listen _) (turns_wait { t with pending := none, watch := _ } _))

theorem turns_useLine (request : Message) (line : String)
    (hown : ∀ text, entered? request line = some text → Owns own w request text) :
    Turns own t.exitWord w (useLine t request line w) := by
  unfold useLine
  split
  · next part hpart =>
    split
    · next hplain =>
      refine turns_reply t w request part (hown part ?_)
      rw [entered?, hpart]
      exact if_pos hplain
    · exact turns_complete t w request part
  · next hpart =>
    refine turns_reply { t with responding := startsResponse request line } w request line
      (hown line ?_)
    rw [entered?, hpart]

theorem turns_readLine {request : Message} (hpending : t.pending = some request)
    (hown : ∀ line, t.line? request = some line → Owns own w request line) :
    Turns own t.exitWord w (readLine t request w) := by
  unfold readLine
  split
  · next line lines hlines =>
    refine turns_useLine { t with lines } w request line fun text htext => hown text ?_
    rw [line?, hlines]
    exact htext
  · next hlines =>
    have hword : t.inputEnded || t.keyPressed → Owns own w request t.exitWord := fun h => by
      refine hown t.exitWord ?_
      rw [line?, hlines]
      exact if_pos h
    split
    · next hended =>
      refine turns_reply (t.print .lineEnd) w request t.exitWord (hword ?_)
      rw [hended, Bool.true_or]
    · refine turns_rest t w fun hkey other hother => ?_
      cases hpending.symm.trans hother
      refine hword ?_
      rw [hkey, Bool.or_true]

theorem turns_takeRequest (hpending : t.pending = none) :
    Turns own t.exitWord w (takeRequest t w) := by
  unfold takeRequest
  split
  · refine turns_rest t w fun _ request hrequest => ?_
    cases hpending.symm.trans hrequest
  · exact .after (.taken _) (turns_finish t _ none)
  · next e _ =>
    exact .after (.taken _) (turns_again ({ t with
      pending := some e.payload, responding := false }.print (.prompt (isPlain e.payload))) _)

theorem turns_watchTurn (hwatch : t.watch = .all) :
    Turns ((t.reply? w).toList.map Reply.event) t.exitWord w (watchTurn t w) := by
  unfold watchTurn
  split
  · next e _ => exact .after (.taken _) (turns_again (t.print (.message e.payload)) _)
  · exact .after (.taken _) (turns_finish t _ none)
  · next houtput =>
    split
    · exact .after (.taken _) (turns_finish t _ none)
    · exact .after (.taken _) (turns_finish t _ none)
    · next hexits =>
      split
      · next request hpending =>
        refine turns_readLine t w hpending fun line hline => ?_
        simp only [reply?, hwatch, houtput, hexits, hpending, hline]
        exact List.mem_singleton_self _
      · next hpending => exact turns_takeRequest t w hpending

theorem turns_completionTurn (request : Message) (line : String) (id : SubscriptionId)
    (deadline : Nat) : Turns own t.exitWord w (completionTurn t request line id deadline w) := by
  have hread : Speaks own w ((w.taken id).release id) := (Speaks.taken id).trans (.release id)
  have hreopen : ∀ (shown : Terminal), shown.exitWord = t.exitWord → ∀ w' : World,
      Turns own t.exitWord w' (reopen shown request w') :=
    fun shown h w' => ⟨.refl, { shown with
      watch := .all, pending := some request, keyPressed := false }.print (.prompt false), h,
        .inr rfl⟩
  unfold completionTurn
  split
  · split
    · next cs _ => exact .after hread (hreopen (t.print (menu line cs)) rfl _)
    · exact .after (.taken id) (turns_finish t _ _)
  · exact .after hread (hreopen t rfl _)
  · split
    · exact .after (.release id) (hreopen t rfl _)
    · exact turns_wait t w

/-- **What a turn of a terminal publishes**: of the replies to requests for a line, the one that it
gives (`reply?`) and no other. -/
theorem turns_turn : Turns ((t.reply? w).toList.map Reply.event) t.exitWord w (t.turn w) := by
  unfold turn
  split
  · next hwatch => exact turns_watchTurn t w hwatch
  · exact turns_completionTurn t w _ _ _ _
  · exact turns_wait t w

end

end Terminal

end Parley
