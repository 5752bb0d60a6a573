import Parley.Proofs.Bus.Bystander
import Parley.Proofs.Bus.FirstListener
import Parley.Proofs.Session.Finale
import Parley.Proofs.Terminal.EndOfInput
import Parley.Proofs.Terminal.Watch

/-!
# A terminal that prints

A `Showing` is a world with a session and a terminal in it, and a record of what has been done on
the bus since the terminal came, and of the requests that it has taken. It goes on (`Showing.Step`)
when either of the two takes a turn, when the user enters lines, ends the input or presses the key,
or when anybody else does anything but move the two tasks to where they did not stand, or read and
drop what the terminal holds. The dispatcher, the task that completes lines and all other listeners
are among the others.

`Showing.Mail` is the account of the terminal's three mailboxes while it runs: what it has printed
and what lies in the first is what has been handed out on the default channel, and so on. Others put
marks of the end into all three at once; so when the terminal finds one in the second or third, it
has found the one in the first before. The session puts them there only when its own end has been
handed out (`Sits`).
-/

set_option autoImplicit false

namespace Parley

open Exchange (Stands)

/-- The channels that a terminal listens to, in this order. -/
def Terminal.channels : List String :=
  [Channel.default, Channel.inputRequest, Channel.sessionExit]

/-- A request that the terminal has taken, and what had been printed before its prompt. -/
structure Prompted where
  request : Message
  printed : List Print

def Terminal.prompted? (t : Terminal) (w : World) : Option Prompted :=
  (t.taken? w).map fun request => { request, printed := t.printed }

structure Showing where
  world : World
  /-- What has been done on the bus since the terminal listens. -/
  acts : List (Bus.Act Message) := []
  /-- What others than session and terminal have done of that. -/
  outside : List (Bus.Act Message) := []
  prompts : List Prompted := []

namespace Showing

/-- The bus to whose channels the terminal has just listened. -/
def attached (before : List (Bus.Act Message)) : Bus Message :=
  Bus.run {} (before ++ Bus.listening Terminal.channels)

/-- The terminal that has listened to its channels, as `Play.attach` has it. -/
def fresh (before : List (Bus.Act Message)) (exitWord : String) (lines : List String)
    (inputEnded : Bool) : Terminal :=
  let next := (Bus.run {} before).nextId
  { output := next, requests := next + 1, exits := next + 2, exitWord, lines, inputEnded }

/-- The task of the terminal stands so, whether or not it has been cancelled. -/
def Placed (w : World) (d : TaskId) (t : Terminal) : Prop :=
  ∃ c, w.task? d = some ⟨d, .own (.terminal t), c⟩

/-- A step, where `s` is the task of the session and `d` that of the terminal. -/
inductive Step (s d : TaskId) (x : Showing) : Showing → Prop
  | session {stage : Stage} {rest : List TaskId} {acts : List (Bus.Act Message)}
    (h : x.world.ready = s :: rest) (hs : Stands x.world s (.session stage))
    (hb : (x.world.step program).bus = x.world.bus.run acts) (ha : .dispatch ∉ acts) :
    Step s d x { x with world := x.world.step program, acts := x.acts ++ acts }
  | terminal {t : Terminal} {rest : List TaskId} {acts : List (Bus.Act Message)}
    (h : x.world.ready = d :: rest) (ht : Stands x.world d (.terminal t))
    (hb : (x.world.step program).bus = x.world.bus.run acts) (ha : .dispatch ∉ acts) :
    Step s d x { x with
      world := x.world.step program
      acts := x.acts ++ acts
      prompts := x.prompts ++ (t.prompted? { x.world with ready := rest }).toList }
  | user {t t' : Terminal} (ht : Stands x.world d (.terminal t)) (h : Sitting.Touches t t')
    (signal : Signal) :
    Step s d x { x with world := (x.world.place d (.terminal t')).signal signal }
  | others {w : World} {acts : List (Bus.Act Message)} (hb : w.bus = x.world.bus.run acts)
    (ha : ∀ t, Placed x.world d t → ∀ id ∈ t.holds, ∀ a ∈ acts, a.Avoids id)
    (hs : ∀ stage, Stands w s (.session stage) → Stands x.world s (.session stage))
    (ht : ∀ t, Placed w d t → Placed x.world d t) :
    Step s d x { x with world := w, acts := x.acts ++ acts, outside := x.outside ++ acts }

/-- What a showing comes to, where `before` has been done on the bus before the terminal listened.
Others may have been at the bus between that and the start of the two tasks. -/
inductive Reached (s d : TaskId) (before : List (Bus.Act Message)) : Showing → Prop
  | start {w : World} {exitWord : String} {lines : List String} {inputEnded : Bool}
    {acts : List (Bus.Act Message)}
    (hb : w.bus = (attached before).run acts)
    (ha : ∀ id ∈ (fresh before exitWord lines inputEnded).holds, ∀ a ∈ acts, a.Avoids id)
    (hs : Stands w s (.session (.unstarted .session)))
    (ht : Stands w d (.terminal (fresh before exitWord lines inputEnded))) :
    Reached s d before { world := w, acts, outside := acts }
  | step {x y : Showing} (hx : Reached s d before x) (h : Step s d x y) : Reached s d before y

/-! ## What has been published and handed out -/

section
variable (before : List (Bus.Act Message)) (x : Showing)

/-- What has been published on the bus, from its beginning. -/
def published : List (Event Message) := Bus.published before ++ Bus.published x.acts

/-- What the terminal is handed sooner or later, in this order. -/
def coming : List (Event Message) :=
  ((attached before).backend.queue ++ Bus.published x.acts).filter
    (Terminal.channels.contains ·.channel)

def heard : List (Event Message) := (attached before).handed x.acts

/-- The conversation that has been printed. -/
def conversation (ps : List Print) : List (Event Message) :=
  (Print.messages ps).map (⟨Channel.default, ·⟩)

/-- The requests that have been taken. -/
def requests (prompts : List Prompted) : List (Event Message) :=
  prompts.map (⟨Channel.inputRequest, ·.request⟩)

/-- The end of the session has come, and everything that came before it has been shown. -/
def Covered (shown es : List (Event Message)) : Prop :=
  ∃ e : Event Message, e.channel = Channel.sessionExit ∧
    Event.Behind Channel.default shown [] e es

/-- Somebody has replied to a request for completions with something else. -/
def Garbled : Prop :=
  ∃ e ∈ published before x, (∃ id, e.channel = Channel.reply Channel.completionRequest id) ∧
    Words.Completion.listOfValue? e.payload.data = none

end

theorem nodup_channels : Terminal.channels.Nodup := by decide

section
variable {before : List (Bus.Act Message)} {x y : Showing}

theorem coming_of_acts {acts : List (Bus.Act Message)} (h : y.acts = x.acts ++ acts) :
    coming before x <+: coming before y := by
  rw [coming, coming, h, Bus.published_append, ← List.append_assoc,
    List.filter_append _ (Bus.published acts)]
  exact List.prefix_append _ _

theorem published_of_acts {acts : List (Bus.Act Message)} (h : y.acts = x.acts ++ acts) :
    published before x <+: published before y := by
  rw [published, published, h, Bus.published_append, ← List.append_assoc]
  exact List.prefix_append _ _

theorem heard_append {acts : List (Bus.Act Message)} (h : y.acts = x.acts ++ acts)
    (hbus : x.world.bus = (attached before).run x.acts) :
    heard before y = heard before x ++ x.world.bus.handed acts := by
  rw [heard, h, Bus.handed_append, ← hbus, heard]

theorem heard_of_no_dispatch {acts : List (Bus.Act Message)} (h : y.acts = x.acts ++ acts)
    (hbus : x.world.bus = (attached before).run x.acts) (hacts : .dispatch ∉ acts) :
    heard before y = heard before x := by
  rw [heard_append h hbus, Bus.handed_of_no_dispatch hacts, List.append_nil]

theorem Garbled.mono (h : Garbled before x) {acts : List (Bus.Act Message)}
    (hacts : y.acts = x.acts ++ acts) : Garbled before y := by
  obtain ⟨e, he, hrest⟩ := h
  exact ⟨e, (published_of_acts hacts).subset he, hrest⟩

theorem Covered.mono {shown shown' es es' : List (Event Message)} (h : Covered shown es)
    (hs : shown <+: shown') (he : es <+: es') : Covered shown' es' := by
  obtain ⟨e, hchannel, hbehind⟩ := h
  exact ⟨e, hchannel, hbehind.mono hs he⟩

theorem conversation_append (ps qs : List Print) :
    conversation (ps ++ qs) = conversation ps ++ conversation qs := by
  rw [conversation, Print.messages_append, List.map_append, conversation, conversation]

/-- When the end of the session has been handed out and the terminal has been shown all that has
been handed out, it has been shown what comes before the end. -/
theorem covered_of_heard {shown es : List (Event Message)}
    (hall : Event.on Channel.default es <+: shown)
    (hexit : ∃ e ∈ es, e.channel = Channel.sessionExit) : Covered shown es := by
  obtain ⟨e, he, hchannel⟩ := hexit
  have hmem : e ∈ Event.on Channel.sessionExit es := List.mem_filter.2 ⟨he, by simp [hchannel]⟩
  cases hexits : Event.on Channel.sessionExit es with
  | nil =>
    rw [hexits] at hmem
    exact absurd hmem List.not_mem_nil
  | cons first rest =>
    have hfirst : first.channel = Channel.sessionExit := by
      have hin : first ∈ Event.on Channel.sessionExit es := hexits ▸ List.mem_cons_self
      exact eq_of_beq (List.mem_filter.1 hin).2
    exact ⟨first, hfirst, Event.behind_of_on (by rw [hfirst, hexits]; rfl) hall⟩

end

/-! ## The mailboxes of the terminal -/

/-- The account of the three mailboxes (module doc). -/
structure Mail (before : List (Bus.Act Message)) (x : Showing) (t : Terminal)
    (out req ext : List (Delivery Message)) : Prop where
  output : x.world.bus.Tracks t.output Channel.default out (conversation t.printed) (heard before x)
  requests : x.world.bus.Tracks t.requests Channel.inputRequest req (requests x.prompts)
    (heard before x)
  exits : x.world.bus.Tracks t.exits Channel.sessionExit ext [] (heard before x)
  marks : .closed ∈ req ∨ .closed ∈ ext → .closed ∈ out
  ended : .closed ∈ out → .closeAll ∈ x.outside ∨
    Covered (conversation t.printed ++ Delivery.ahead out) (coming before x)

/-- The terminal has listened to its channels with these subscriptions. -/
structure Listens (before : List (Bus.Act Message)) (t : Terminal) : Prop where
  output : (t.output, .channel Channel.default) ∈ (attached before).roster
  requests : (t.requests, .channel Channel.inputRequest) ∈ (attached before).roster
  exits : (t.exits, .channel Channel.sessionExit) ∈ (attached before).roster

theorem agrees_attached (before : List (Bus.Act Message)) : (attached before).Agrees :=
  Bus.agrees_run _

/-- Nothing has been handed out to a terminal that has just listened to its channels. -/
theorem tracks_fresh {before : List (Bus.Act Message)} {i : Nat} {c : String}
    (hi : Terminal.channels[i]? = some c) :
    (attached before).Tracks ((Bus.run {} before).nextId + i) c [] [] [] := by
  refine ⟨?_, rfl⟩
  rw [attached, Bus.run_append]
  exact (Bus.agrees_run before).subscription?_listening hi

namespace Listens

variable {before : List (Bus.Act Message)} {t : Terminal} (h : Listens before t)
include h

theorem lt {id : SubscriptionId} (hid : id = t.output ∨ id = t.requests ∨ id = t.exits) :
    id < (attached before).nextId := by
  rcases hid with rfl | rfl | rfl
  · exact (agrees_attached before).old _ h.output
  · exact (agrees_attached before).old _ h.requests
  · exact (agrees_attached before).old _ h.exits

omit h in
theorem ne {i j : SubscriptionId} {c d : String} (hcd : c ≠ d)
    (hi : (i, .channel c) ∈ (attached before).roster)
    (hj : (j, .channel d) ∈ (attached before).roster) : i ≠ j := by
  rintro rfl
  exact hcd (Scope.channel.inj ((agrees_attached before).scope_unique hi hj))

end Listens

section
variable {before : List (Bus.Act Message)} {x y : Showing} {t t' : Terminal}
  {out req ext : List (Delivery Message)}

/-- What has been handed out to the terminal and what is queued for it is what it is to get. -/
theorem Mail.coming (h : Mail before x t out req ext) (hl : Listens before t)
    (hbus : x.world.bus = (attached before).run x.acts) :
    coming before x = (heard before x ++ x.world.bus.backend.queue).filter
      (Terminal.channels.contains ·.channel) := by
  have hagrees := agrees_attached before
  -- the three subscriptions are there at both ends, so their channels were heard all the time
  rw [Showing.coming, heard, hbus]
  refine hagrees.queue_run fun c hc => ?_
  have hkept : ∀ {id : SubscriptionId} {c : String}, (id, .channel c) ∈ (attached before).roster →
      (id, .channel c) ∈ x.world.bus.roster → ∃ p ∈ (attached before).roster,
        p.2.covers c = true ∧ ∀ a ∈ x.acts, a.drops p.1 = false := fun {id c} hb hx =>
    ⟨(id, .channel c), hb, by simp [Scope.covers], hagrees.kept_of_mem hb (hbus ▸ hx)⟩
  have hmem : c = Channel.default ∨ c = Channel.inputRequest ∨ c = Channel.sessionExit := by
    simpa [Terminal.channels] using hc
  rcases hmem with rfl | rfl | rfl
  · exact hkept hl.output h.output.mem_roster
  · exact hkept hl.requests h.requests.mem_roster
  · exact hkept hl.exits h.exits.mem_roster

theorem Mail.heard_coming (h : Mail before x t out req ext) (hl : Listens before t)
    (hbus : x.world.bus = (attached before).run x.acts) :
    (heard before x).filter (Terminal.channels.contains ·.channel) <+: Showing.coming before x := by
  rw [h.coming hl hbus, List.filter_append]
  exact List.prefix_append _ _

theorem mem_channels_default : Channel.default ∈ Terminal.channels := by decide

theorem mem_channels_request : Channel.inputRequest ∈ Terminal.channels := by decide

theorem mem_channels_exit : Channel.sessionExit ∈ Terminal.channels := by decide

theorem Mail.printed (h : Mail before x t out req ext) (hl : Listens before t)
    (hbus : x.world.bus = (attached before).run x.acts) :
    conversation t.printed <+: Event.on Channel.default (Showing.coming before x) := by
  have hprefix := (h.heard_coming hl hbus).filter (·.channel == Channel.default)
  have hsame := Event.on_filter_contains mem_channels_default (heard before x)
  rw [show List.filter _ (List.filter _ (heard before x)) = _ from hsame, ← h.output.account]
    at hprefix
  exact (List.prefix_append _ _).trans hprefix

/-- The end of the session has been handed out, and nothing that was is left to be printed. -/
theorem Mail.covered (h : Mail before x t out req ext) (hl : Listens before t)
    (hbus : x.world.bus = (attached before).run x.acts)
    (hexit : ∃ e ∈ heard before x, e.channel = Channel.sessionExit) :
    Covered (conversation t.printed ++ Delivery.events out) (Showing.coming before x) := by
  obtain ⟨e, he, hchannel⟩ := hexit
  have hmem : e ∈ (heard before x).filter (Terminal.channels.contains ·.channel) :=
    List.mem_filter.2 ⟨he, by rw [hchannel]; decide⟩
  have hall : Event.on Channel.default
      ((heard before x).filter (Terminal.channels.contains ·.channel)) <+:
        conversation t.printed ++ Delivery.events out := by
    refine ⟨[], ?_⟩
    rw [List.append_nil, Event.on_filter_contains mem_channels_default, h.output.account]
  exact (covered_of_heard hall ⟨e, hmem, hchannel⟩).mono List.prefix_rfl (h.heard_coming hl hbus)

/-- What leaves the three mailboxes alone leaves the account as it is. -/
theorem Mail.frame (h : Mail before x t out req ext) (ht : t.Continues t')
    (hheard : heard before y = heard before x)
    (hcoming : Showing.coming before x <+: Showing.coming before y)
    (hprompts : y.prompts = x.prompts) (houtside : y.outside = x.outside)
    (hbus : ∀ id, id = t.output ∨ id = t.requests ∨ id = t.exits →
      y.world.bus.subscription? id = x.world.bus.subscription? id) :
    Mail before y t' out req ext := by
  have hshown : conversation t'.printed = conversation t.printed := by
    rw [conversation, ht.messages, conversation]
  refine ⟨?_, ?_, ?_, h.marks, fun hmark => ?_⟩
  · rw [ht.output, hshown, hheard]
    exact h.output.congr (hbus _ (.inl rfl))
  · rw [ht.requests, hprompts, hheard]
    exact h.requests.congr (hbus _ (.inr (.inl rfl)))
  · rw [ht.exits, hheard]
    exact h.exits.congr (hbus _ (.inr (.inr rfl)))
  · rw [houtside, hshown]
    exact (h.ended hmark).imp_right fun hcovered => hcovered.mono List.prefix_rfl hcoming

/-- One act that takes nothing out of the three mailboxes. -/
theorem Mail.act (h : Mail before x t out req ext) (hl : Listens before t)
    (hbus : x.world.bus = (attached before).run x.acts) {a : Bus.Act Message}
    (ha : ∀ id, id = t.output ∨ id = t.requests ∨ id = t.exits → a.Avoids id)
    (hy : y.world.bus = x.world.bus.act a)
    (hheard : heard before y = heard before x ++ x.world.bus.handsOut a)
    (hcoming : Showing.coming before x <+: Showing.coming before y)
    (hprompts : y.prompts = x.prompts) (houtside : ∀ a ∈ x.outside, a ∈ y.outside)
    (hclose : a = .closeAll → .closeAll ∈ y.outside ∨
      ∃ e ∈ heard before x, e.channel = Channel.sessionExit) :
    ∃ out' req' ext', Mail before y t out' req' ext' := by
  have hagrees : x.world.bus.Agrees := hbus ▸ (agrees_attached before).run x.acts
  obtain ⟨ds, hout, hmark⟩ := h.output.act hagrees (ha _ (.inl rfl))
  obtain ⟨ds', hreq, hmark'⟩ := h.requests.act hagrees (ha _ (.inr (.inl rfl)))
  obtain ⟨ds'', hext, hmark''⟩ := h.exits.act hagrees (ha _ (.inr (.inr rfl)))
  rw [← hheard, ← hy] at hout hreq hext
  refine ⟨out ++ ds, req ++ ds', ext ++ ds'', hout, hprompts ▸ hreq, hext, fun hclosed => ?_,
    fun hclosed => ?_⟩
  · rw [List.mem_append, List.mem_append] at hclosed
    rw [List.mem_append]
    rcases hclosed with (hr | hr) | hx | hx
    · exact .inl (h.marks (.inl hr))
    · exact .inr (hmark.2 (hmark'.1 hr))
    · exact .inl (h.marks (.inr hx))
    · exact .inr (hmark.2 (hmark''.1 hx))
  · by_cases hold : .closed ∈ out
    · rw [Delivery.ahead_append_of_mem hold]
      exact (h.ended hold).imp (houtside _) fun hcovered => hcovered.mono List.prefix_rfl hcoming
    · -- the first marks come with this act, when everything before them has been delivered
      have hlast := hmark.1 ((List.mem_append.1 hclosed).resolve_left hold)
      refine (hclose hlast).imp_right fun hexit => ?_
      rw [Delivery.ahead_append_of_not_mem hold, ← List.append_assoc]
      exact (h.covered hl hbus hexit).mono (List.prefix_append _ _) hcoming

end

end Showing
end Parley
