import Parley.Proofs.Terminal.Lines
import Parley.Proofs.Terminal.Showing

/-!
# Requests and lines at a terminal

A `Serving` is a world with a terminal in it, and a record of what has been done on the bus since the
terminal listens, of what it has published, and of the lines that the user has entered. It goes on
(`Serving.Step`) when the terminal takes a turn, when the user enters lines, or when others do
anything but touch the terminal's task, read or drop its mailbox for requests, or forget to rouse it
when they put something there (`Serving.Others`). The dispatcher is among the others, and so is
whoever minds subscriptions of his own. The user neither presses the key nor ends the input.

The terminal does what `Terminal.serve` says with the requests that it has taken and the lines that
it has used (`Serving.Account`). While it runs, the requests that it has taken and those in its
mailbox are the ones that have been handed out, and it is due while it can serve one
(`Serving.Runs`). So its dialogue, however long, is the one that is held line by line
(`line_by_line`).
-/

set_option autoImplicit false

namespace Parley

open Exchange (Stands stands_place roused_send)

structure Serving where
  world : World
  /-- What has been done on the bus since the terminal listens. -/
  acts : List (Bus.Act Message) := []
  /-- What the terminal has published. -/
  sent : List (Event Message) := []
  /-- The lines that the user has entered. -/
  entered : List String := []

namespace Serving

/-- After a turn of the terminal, which has done `acts` on the bus. -/
def turned (x : Serving) (acts : List (Bus.Act Message)) : Serving :=
  { x with
    world := x.world.step program
    acts := x.acts ++ acts
    sent := x.sent ++ Bus.published acts }

/-- After the user has entered lines, `t` being the terminal in the task `d`. -/
def entering (x : Serving) (d : TaskId) (t : Terminal) (lines : List String) : Serving :=
  { x with
    world := (x.world.place d (.terminal { t with lines := t.lines ++ lines })).signal .line
    entered := x.entered ++ lines }

/-- After others have turned the world into `w`, and have done `acts` on the bus. -/
def passed (x : Serving) (w : World) (acts : List (Bus.Act Message)) : Serving :=
  { x with world := w, acts := x.acts ++ acts }

/-- What others may do (module doc), where `d` is the task of the terminal. -/
structure Others (d : TaskId) (x : Serving) (acts : List (Bus.Act Message)) (w : World) : Prop where
  bus : w.bus = x.world.bus.run acts
  task : w.task? d = x.world.task? d
  avoids : ∀ t, Stands x.world d (.terminal t) → t.isEnded = false → ∀ a ∈ acts, a.Avoids t.requests
  kept : d ∈ x.world.ready → d ∈ w.ready
  roused : ∀ t, Stands x.world d (.terminal t) → t.awaits (.mail t.requests) = true →
    w.bus.inbox t.requests ≠ x.world.bus.inbox t.requests → d ∈ w.ready

inductive Step (d : TaskId) (x : Serving) : Serving → Prop
  | terminal {t : Terminal} {rest : List TaskId} {acts : List (Bus.Act Message)}
    (h : x.world.ready = d :: rest) (ht : Stands x.world d (.terminal t))
    (hb : (x.world.step program).bus = x.world.bus.run acts) (ha : .dispatch ∉ acts) :
    Step d x (x.turned acts)
  | user {t : Terminal} (ht : Stands x.world d (.terminal t)) (lines : List String) :
    Step d x (x.entering d t lines)
  | others {acts : List (Bus.Act Message)} {w : World} (h : Others d x acts w) :
    Step d x (x.passed w acts)

/-- What a terminal comes to, where `before` has been done on the bus before it listened. Others may
have been at the bus between that and the start of its task. -/
inductive Reached (d : TaskId) (before : List (Bus.Act Message)) : Serving → Prop
  | start {w : World} {exitWord : String} {lines : List String} {acts : List (Bus.Act Message)}
    (hb : w.bus = (Showing.attached before).run acts)
    (ha : ∀ a ∈ acts, a.Avoids (Showing.fresh before exitWord lines false).requests)
    (ht : Stands w d (.terminal (Showing.fresh before exitWord lines false)))
    (hd : d ∈ w.ready) :
    Reached d before { world := w, acts, entered := lines }
  | step {x y : Serving} (hx : Reached d before x) (h : Step d x y) : Reached d before y

/-- The requests for a line that have been handed out since the terminal listens. -/
def requested (before : List (Bus.Act Message)) (x : Serving) : List Message :=
  (Event.on Channel.inputRequest ((Showing.attached before).handed x.acts)).map (·.payload)

/-- The requests that lie in the terminal's mailbox. -/
def waiting (x : Serving) (t : Terminal) : List Message :=
  (Delivery.events (x.world.bus.inbox t.requests)).map (·.payload)

/-- The event is the message, stamped and published. -/
def Sends (o : Outgoing) (e : Event Message) : Prop :=
  ∃ id now, e =
    { channel := o.channel
      payload :=
        { id
          channel := o.channel
          source := o.source
          data := o.data
          extra := o.extra
          createdAt := now } }

/-- The terminal has taken `requests` and used the lines `read`; by that it has sent `os`, and left
the requests `left` open. -/
structure Account (before : List (Bus.Act Message)) (x : Serving) (t : Terminal)
    (requests : List Message) (read : List String) (os : List Outgoing) (left : List Message) :
    Prop where
  taken : requests <+: x.requested before
  lines : x.entered = read ++ t.lines
  served : Terminal.serve requests read = some (os, left)
  sent : List.Forall₂ Sends os x.sent

/-- What holds of the terminal while it runs (module doc). -/
structure Runs (d : TaskId) (before : List (Bus.Act Message)) (x : Serving) (t : Terminal)
    (requests left : List Message) : Prop where
  opened : left = t.open?.toList
  tracks : ∃ inbox taken, taken.map (·.payload) = requests ∧
    x.world.bus.Tracks t.requests Channel.inputRequest inbox taken
      ((Showing.attached before).handed x.acts)
  own : t.requests ∉ t.own
  output : t.output ≠ t.requests
  due : t.watch = .all → ¬t.Idle x.world → d ∈ x.world.ready

/-- What holds of every terminal. -/
structure Inv (d : TaskId) (before : List (Bus.Act Message)) (x : Serving) (t : Terminal) : Prop where
  bus : x.world.bus = (Showing.attached before).run x.acts
  stands : Stands x.world d (.terminal t)
  keyPressed : t.keyPressed = false
  inputEnded : t.inputEnded = false
  account : ∃ requests read os left, Account before x t requests read os left ∧
    (t.isEnded = false → Runs d before x t requests left)

variable {d : TaskId} {before : List (Bus.Act Message)} {x y : Serving} {t t' : Terminal}
  {requests left : List Message}

theorem Inv.agrees (h : Inv d before x t) : x.world.bus.Agrees :=
  h.bus ▸ (Showing.agrees_attached before).run x.acts

theorem Inv.eq_of_stands (h : Inv d before x t) (ht : Stands x.world d (.terminal t')) : t' = t := by
  cases ht.symm.trans h.stands
  rfl

/-- What has been handed out has been taken or lies in the mailbox. -/
theorem Runs.requested_eq (h : Runs d before x t requests left) :
    x.requested before = requests ++ x.waiting t := by
  obtain ⟨inbox, taken, rfl, htracks⟩ := h.tracks
  rw [requested, ← htracks.account, List.map_append, waiting,
    Bus.inbox_of_subscription? htracks.mailbox]

/-- Whether a terminal is idle is seen from its mailbox. -/
theorem idle_congr {w w' : World}
    (h : w'.bus.subscription? t.requests = w.bus.subscription? t.requests) (hidle : t.Idle w) :
    t.Idle w' := by
  have hpeek : w'.peek t.requests = w.peek t.requests := by
    rw [Schedule.peek, Schedule.peek, Bus.read, Bus.read, h]
    cases w.bus.subscription? t.requests <;> rfl
  unfold Terminal.Idle at hidle ⊢
  rwa [hpeek]

/-! ## Turns of the terminal -/

/-- What the bus is after a turn of the terminal. -/
theorem bus_step {w : World} {rest : List TaskId} (hready : w.ready = d :: rest)
    (ht : Stands w d (.terminal t)) :
    (w.step program).bus = (t.turn { w with ready := rest }).1.bus := by
  obtain ⟨t', hgoes, -⟩ := t.moves_turn { w with ready := rest }
  rw [Schedule.step_own hready ht]
  exact (Schedule.settleTurn_spec hgoes d).1

theorem running_of_moves {w w' : World} (h : t.Moves w w' t') (hruns : t'.isEnded = false) :
    t.isEnded = false := by
  cases h with
  | prints hw => exact Terminal.isEnded_of_all hw
  | takes hw => exact Terminal.isEnded_of_all hw
  | ends _ _ => cases hruns
  | goes hr => exact hr
  | rests h => exact hruns

/-- The request that is taken lies in front of the mailbox. -/
theorem peek_of_taken? {w : World} {request : Message} (h : t.taken? w = some request) :
    ∃ e, w.peek t.requests = .event e ∧ e.payload = request := by
  unfold Terminal.taken? at h
  split at h
  · next e _ _ _ _ he => exact ⟨e, he, Option.some.inj h⟩
  · cases h

/-- A terminal that goes on takes the request out of its mailbox, and nothing else. -/
theorem tracks_of_moves {w w' : World} (h : t.Moves w w' t') (hruns : t'.isEnded = false)
    (hw : w.bus.Agrees) {inbox : List (Delivery Message)} {taken heard : List (Event Message)}
    (htracks : w.bus.Tracks t.requests Channel.inputRequest inbox taken heard)
    (hown : t.requests ∉ t.own) (hout : t.output ≠ t.requests) :
    t'.requests = t.requests ∧ t'.output = t.output ∧ t.requests ∉ t'.own ∧
      ∃ inbox' new, new.map (·.payload) = (t.taken? w).toList ∧
        w'.bus.Tracks t.requests Channel.inputRequest inbox' (taken ++ new) heard := by
  have hsame : t.taken? w = none → w'.bus.subscription? t.requests = w.bus.subscription? t.requests →
      ∃ inbox' new, new.map (·.payload) = (t.taken? w).toList ∧
        w'.bus.Tracks t.requests Channel.inputRequest inbox' (taken ++ new) heard := by
    intro hn hsub
    refine ⟨inbox, [], by rw [hn]; rfl, ?_⟩
    rw [List.append_nil]
    exact htracks.congr hsub
  cases h with
  | prints hall he =>
    have hn : t.taken? w = none := by simp only [Terminal.taken?, hall, he]
    exact ⟨rfl, rfl, hown, hsame hn (Bus.subscription?_read_of_ne _ hout)⟩
  | @takes e hall ho hx hp he =>
    obtain ⟨rest, rfl⟩ := htracks.of_event he
    have htaken : t.taken? w = some e.payload := by
      simp only [Terminal.taken?, hall, ho, hx, hp, he]
    exact ⟨rfl, rfl, hown, rest, [e], by rw [htaken]; rfl, htracks.read.2⟩
  | ends _ _ => cases hruns
  | goes _ hgoes hn =>
    have hold : t.requests < w.bus.nextId := hw.old _ htracks.mem_roster
    refine ⟨hgoes.continues.requests, hgoes.continues.output, fun hmem => ?_,
      hsame hn (hgoes.handles.bus.mailbox hw hown hold)⟩
    rcases hgoes.handles.bus.fresh hw hmem with hmem | hle
    · exact hown hmem
    · exact absurd hold (Nat.not_lt.2 hle)
  | rests h => exact absurd (hruns.symm.trans h) Bool.false_ne_true

theorem handed_turned (before : List (Bus.Act Message)) (x : Serving)
    {acts : List (Bus.Act Message)} (ha : .dispatch ∉ acts) :
    (Showing.attached before).handed (x.turned acts).acts =
      (Showing.attached before).handed x.acts := by
  rw [turned, Bus.handed_append, Bus.handed_of_no_dispatch ha, List.append_nil]

/-- A terminal that has ended serves nothing. -/
theorem served_of_ended {w : World} (hended : t.isEnded = true) {used : List String}
    {os : List Outgoing} (h : Terminal.serve (t.open?.toList ++ (t.taken? w).toList) used =
      some (os, left)) : t.taken? w = none ∧ used = [] ∧ os = [] := by
  have hnone : t.taken? w = none := Terminal.taken?_of_ended hended
  rw [Terminal.open?_of_ended hended, hnone] at h
  cases used with
  | nil =>
    cases h
    exact ⟨hnone, rfl, rfl⟩
  | cons line used => cases h

/-- The request that is taken is the next one. -/
theorem Runs.taken (h : Runs d before x t requests left) {w : World} (hw : w.bus = x.world.bus) :
    requests ++ (t.taken? w).toList <+: x.requested before := by
  cases htaken : t.taken? w with
  | none =>
    rw [Option.toList_none, List.append_nil, h.requested_eq]
    exact List.prefix_append _ _
  | some request =>
    obtain ⟨e, hpeek, rfl⟩ := peek_of_taken? htaken
    obtain ⟨inbox, taken, rfl, htracks⟩ := h.tracks
    obtain ⟨rest, rfl⟩ := htracks.of_event (by rw [← hw]; exact hpeek)
    refine ⟨(Delivery.events rest).map (·.payload), ?_⟩
    rw [requested, ← htracks.account, List.map_append, List.append_assoc]
    rfl

/-- A terminal that is still running after its turn is due again, or it can serve nothing. -/
theorem due_of_turn {w : World} {led : World × Progress Activity} (hrests : Terminal.Rests led)
    (hgoes : led.2 = .wait (.terminal t') ∨ led.2 = .again (.terminal t'))
    (hw : w = Schedule.settleTurn d led) (hwatch : t'.watch = .all) (hidle : ¬t'.Idle w) :
    d ∈ w.ready := by
  have hbus := (Schedule.settleTurn_spec hgoes d).1
  rw [← hw] at hbus
  obtain ⟨led, progress⟩ := led
  rcases hgoes with rfl | rfl
  · have hsame := congrArg (Bus.subscription? · t'.requests) hbus
    exact absurd (idle_congr hsame (hrests t' rfl hwatch)) hidle
  · rw [hw]
    exact List.mem_cons_self

/-- What is taken, used and sent in a turn is added to the account. -/
theorem Account.turned {read used : List String} {os os' : List Outgoing} {left' new : List Message}
    (h : Account before x t requests read os left) {acts : List (Bus.Act Message)}
    (ha : .dispatch ∉ acts) (htaken : requests ++ new <+: x.requested before)
    (hlines : t.lines = used ++ t'.lines)
    (hserved : Terminal.serve (left ++ new) used = some (os', left'))
    (hsent : List.Forall₂ Sends os' (Bus.published acts)) :
    Account before (x.turned acts) t' (requests ++ new) (read ++ used) (os ++ os') left' where
  taken := by rwa [requested, handed_turned before x ha]
  lines := by
    rw [List.append_assoc, ← hlines]
    exact h.lines
  served := Terminal.serve_append_lines (Terminal.serve_append_requests h.served new) hserved
  sent := List.rel_append h.sent hsent

/-- What the turn adds goes on from the account, whether the terminal was running or had ended. -/
theorem Account.continues {read used : List String} {os os' : List Outgoing}
    {left' : List Message} (h : Account before x t requests read os left)
    (hruns : t.isEnded = false → Runs d before x t requests left) {w : World}
    (hw : w.bus = x.world.bus)
    (hserved : Terminal.serve (t.open?.toList ++ (t.taken? w).toList) used = some (os', left')) :
    requests ++ (t.taken? w).toList <+: x.requested before ∧
      ∃ left'', Terminal.serve (left ++ (t.taken? w).toList) used = some (os', left'') ∧
        (t.isEnded = false → left'' = left') := by
  cases hended : t.isEnded with
  | true =>
    obtain ⟨hn, rfl, rfl⟩ := served_of_ended hended hserved
    rw [hn, Option.toList_none, List.append_nil, List.append_nil]
    exact ⟨h.taken, left, by rw [Terminal.serve], nofun⟩
  | false =>
    have hrunning := hruns hended
    refine ⟨hrunning.taken hw, left', ?_, fun _ => rfl⟩
    rwa [hrunning.opened]

/-- A terminal that is still running after its turn runs as before. -/
theorem Runs.turned (h : Runs d before x t requests left) (hagrees : x.world.bus.Agrees)
    {rest : List TaskId} {acts : List (Bus.Act Message)} {left' : List Message}
    {led : World × Progress Activity}
    (hstep : x.world.step program = Schedule.settleTurn d led)
    (hgoes : led.2 = .wait (.terminal t') ∨ led.2 = .again (.terminal t'))
    (hmoves : t.Moves { x.world with ready := rest } led.1 t') (hrests : Terminal.Rests led)
    (ha : .dispatch ∉ acts) (hruns : t'.isEnded = false) (hleft : left' = t'.open?.toList) :
    Runs d before (x.turned acts) t'
      (requests ++ (t.taken? { x.world with ready := rest }).toList) left' := by
  obtain ⟨inbox, taken, rfl, htracks⟩ := h.tracks
  obtain ⟨hrequests, houtput, hown, inbox', new, hnew, htracks'⟩ :=
    tracks_of_moves hmoves hruns hagrees htracks h.own h.output
  have hbus := (Schedule.settleTurn_spec hgoes d).1
  rw [← hstep] at hbus
  refine ⟨hleft, ⟨inbox', taken ++ new, ?_, ?_⟩, ?_, ?_, ?_⟩
  · rw [List.map_append, hnew]
  · rw [handed_turned before x ha, hrequests]
    exact htracks'.congr (congrArg (Bus.subscription? · t.requests) hbus)
  · rwa [hrequests]
  · rw [houtput, hrequests]
    exact h.output
  · exact due_of_turn hrests hgoes hstep

/-- **A turn of the terminal**, as one step of the dialogue line by line. -/
theorem Inv.turned (h : Inv d before x t) {rest : List TaskId} {acts : List (Bus.Act Message)}
    (hready : x.world.ready = d :: rest)
    (hb : (x.world.step program).bus = x.world.bus.run acts) (ha : .dispatch ∉ acts) :
    ∃ t', Inv d before (x.turned acts) t' := by
  let w : World := { x.world with ready := rest }
  have hstep : x.world.step program = Schedule.settleTurn d (t.turn w) :=
    Schedule.step_own hready h.stands
  obtain ⟨t', hgoes, hmoves, hserves⟩ :=
    (t.moves_turn w).and (t.serves_turn w h.keyPressed h.inputEnded)
  obtain ⟨hbus, -, htasks⟩ := Schedule.settleTurn_spec hgoes d
  rw [← hstep] at hbus htasks
  obtain ⟨used, os', left', hlines, hserved, hopen, hone, hpublishes⟩ := hserves.served
  have hsent : List.Forall₂ Sends os' (Bus.published acts) := by
    rw [hpublishes.published_eq h.agrees (hbus.symm.trans hb) ha (by rwa [List.length_map]),
      List.forall₂_map_right_iff]
    exact List.forall₂_same.2 fun o _ => ⟨_, _, rfl⟩
  obtain ⟨requests, read, os, left, haccount, hruns⟩ := h.account
  obtain ⟨htaken, left'', hserved', hsame⟩ := haccount.continues hruns (w := w) rfl hserved
  refine ⟨t', ?_, ?_, hserves.keyPressed, hserves.inputEnded, _, _, _, left'',
    haccount.turned ha htaken hlines hserved' hsent, fun hruns' => ?_⟩
  · change (x.world.step program).bus = (Showing.attached before).run (x.acts ++ acts)
    rw [hb, h.bus, Bus.run_append]
  · have hstands : Stands (t.turn w).1 d (.terminal t) := by
      rw [Stands, Schedule.task?, hmoves.tasks]
      exact h.stands
    exact (htasks d).trans (stands_place hstands rfl _)
  · have hrunning := running_of_moves hmoves hruns'
    exact (hruns hrunning).turned h.agrees hstep hgoes hmoves
      (t.rests_turn w h.keyPressed h.inputEnded) ha hruns' ((hsame hrunning).trans (hopen hruns'))

/-! ## What the user and others do -/

/-- **Lines that are entered** are left for later turns. -/
theorem Inv.entering (h : Inv d before x t) (lines : List String) :
    Inv d before (x.entering d t lines) { t with lines := t.lines ++ lines } := by
  let t' : Terminal := { t with lines := t.lines ++ lines }
  have hroused := Schedule.roused_signal (x.world.place d (.terminal t')) .line
  have hplaced : Stands (x.world.place d (.terminal t')) d (.terminal t') :=
    stands_place h.stands rfl _
  obtain ⟨requests, read, os, left, haccount, hruns⟩ := h.account
  refine ⟨hroused.bus.trans h.bus, (hroused.task? d).trans hplaced, h.keyPressed, h.inputEnded,
    requests, read, os, left, ⟨haccount.taken, ?_, haccount.served, haccount.sent⟩,
    fun hruns' => ?_⟩
  · rw [Serving.entering, haccount.lines, List.append_assoc]
  · obtain ⟨hopened, ⟨inbox, taken, hrequests, htracks⟩, hown, houtput, hdue⟩ := hruns hruns'
    refine ⟨hopened, ⟨inbox, taken, hrequests, ?_⟩, hown, houtput, fun hwatch hidle => ?_⟩
    · exact htracks.congr (congrArg (Bus.subscription? · t.requests) hroused.bus)
    · cases hopen : t.open? with
      | none =>
        refine hroused.kept d (hdue hwatch fun hold => hidle ?_)
        have hold' : t'.Idle x.world := by
          rw [Terminal.Idle, show t'.open? = none from hopen]
          rwa [Terminal.Idle, hopen] at hold
        exact idle_congr (congrArg (Bus.subscription? · t'.requests) hroused.bus) hold'
      | some request =>
        have hpending : t.pending = some request := (Terminal.open?_of_all hwatch).symm.trans hopen
        refine Schedule.mem_ready_signal (Schedule.task?_eq_some hplaced).1 ?_
        simp only [Schedule.heeds, Standing.awaits, Activity.awaits, Terminal.awaits, t',
          show t.watch = .all from hwatch, hpending, Option.isSome_some]

theorem requested_passed (before : List (Bus.Act Message)) (x : Serving) (w : World)
    (acts : List (Bus.Act Message)) :
    x.requested before <+: (x.passed w acts).requested before := by
  rw [requested, requested, passed, Bus.handed_append, Event.on_append, List.map_append]
  exact List.prefix_append _ _

/-- A terminal that others find something to do for has been waiting for requests. -/
theorem awaits_requests {w w' : World} (hwatch : t.watch = .all) (hidle : t.Idle w)
    (hbusy : ¬t.Idle w') : t.awaits (.mail t.requests) = true := by
  have hopen : t.open? = none := by
    unfold Terminal.Idle at hidle hbusy
    split at hidle
    · next hopen =>
      rw [hopen] at hbusy
      exact absurd hidle hbusy
    · next hopen => exact hopen
  rw [Terminal.open?_of_all hwatch] at hopen
  simp only [Terminal.awaits, hwatch, hopen, Option.isNone_none, beq_self_eq_true, Bool.and_self,
    Bool.or_true]

/-- **What others do** puts requests into the mailbox, and the terminal is due then. -/
theorem Inv.passed (h : Inv d before x t) {acts : List (Bus.Act Message)} {w : World}
    (hw : Others d x acts w) : Inv d before (x.passed w acts) t := by
  obtain ⟨requests, read, os, left, haccount, hruns⟩ := h.account
  refine ⟨?_, hw.task.trans h.stands, h.keyPressed, h.inputEnded, requests, read, os, left,
    ⟨haccount.taken.trans (requested_passed before x w acts), haccount.lines, haccount.served,
      haccount.sent⟩, fun hruns' => ?_⟩
  · rw [Serving.passed, hw.bus, h.bus, Bus.run_append]
  · obtain ⟨hopened, ⟨inbox, taken, hrequests, htracks⟩, hown, houtput, hdue⟩ := hruns hruns'
    obtain ⟨ds, hmore⟩ := htracks.run h.agrees (hw.avoids t h.stands hruns')
    rw [h.bus, ← Bus.handed_append, ← h.bus, ← hw.bus] at hmore
    refine ⟨hopened, ⟨inbox ++ ds, taken, hrequests, hmore⟩, hown, houtput, fun hwatch hidle => ?_⟩
    by_cases hold : t.Idle x.world
    · refine hw.roused t h.stands (awaits_requests hwatch hold hidle) fun hsame => hidle ?_
      rw [Bus.inbox_of_subscription? hmore.mailbox, Bus.inbox_of_subscription? htracks.mailbox]
        at hsame
      change inbox ++ ds = inbox at hsame
      have hmailbox := hmore.mailbox
      rw [hsame] at hmailbox
      exact idle_congr (hmailbox.trans htracks.mailbox.symm) hold
    · exact hw.kept (hdue hwatch hold)

/-! ## Runs -/

theorem inv_start {w : World} {exitWord : String} {lines : List String}
    {acts : List (Bus.Act Message)} (hb : w.bus = (Showing.attached before).run acts)
    (ha : ∀ a ∈ acts, a.Avoids (Showing.fresh before exitWord lines false).requests)
    (ht : Stands w d (.terminal (Showing.fresh before exitWord lines false)))
    (hd : d ∈ w.ready) :
    Inv d before { world := w, acts, entered := lines }
      (Showing.fresh before exitWord lines false) := by
  have hfresh : (Showing.attached before).Tracks
      (Showing.fresh before exitWord lines false).requests Channel.inputRequest [] [] [] :=
    Showing.tracks_fresh (i := 1) rfl
  obtain ⟨inbox, htracks⟩ := hfresh.run (Showing.agrees_attached before) ha
  rw [← hb] at htracks
  refine ⟨hb, ht, rfl, rfl, [], [], [], [], ⟨List.nil_prefix, rfl, rfl, .nil⟩, fun _ => ?_⟩
  refine ⟨rfl, ⟨inbox, [], rfl, htracks⟩, List.not_mem_nil, Nat.ne_of_lt (Nat.lt_succ_self _),
    fun _ _ => hd⟩

theorem Inv.step (h : Inv d before x t) (hs : Step d x y) : ∃ t', Inv d before y t' := by
  cases hs with
  | terminal hready ht hb ha => exact h.turned hready hb ha
  | user ht lines =>
    obtain rfl := h.eq_of_stands ht
    exact ⟨_, h.entering lines⟩
  | others hw => exact ⟨t, h.passed hw⟩

theorem inv_of_reached (h : Reached d before x) : ∃ t, Inv d before x t := by
  induction h with
  | start hb ha ht hd => exact ⟨_, inv_start hb ha ht hd⟩
  | step _ hs ih =>
    obtain ⟨t, hinv⟩ := ih
    exact hinv.step hs

/-! ## What counts as a step -/

theorem isEnded_of_awaits {signal : Signal} (h : t.awaits signal = true) : t.isEnded = false := by
  cases hwatch : t.watch with
  | all => exact Terminal.isEnded_of_all hwatch
  | completions _ _ _ _ => simp only [Terminal.isEnded, hwatch]
  | ended _ => cases signal <;> simp [Terminal.awaits, hwatch] at h

/-- Every turn of the terminal is a step. -/
theorem exists_turn (h : Reached d before x) {rest : List TaskId}
    (hready : x.world.ready = d :: rest) :
    ∃ y, Step d x y ∧ y.world = x.world.step program := by
  obtain ⟨t, hinv⟩ := inv_of_reached h
  obtain ⟨t', -, hmoves⟩ := t.moves_turn { x.world with ready := rest }
  obtain ⟨acts, hacts, hnone⟩ := hmoves.acts
  have hbus := bus_step hready hinv.stands
  exact ⟨x.turned acts, .terminal hready hinv.stands (hbus.trans hacts) hnone, rfl⟩

/-- Whoever minds subscriptions of his own is one of the others. -/
theorem exists_others (h : Reached d before x) {held held' : List SubscriptionId} {w : World}
    (hw : Bus.Conduct held x.world.bus held' w.bus) (htask : w.task? d = x.world.task? d)
    (hkept : d ∈ x.world.ready → d ∈ w.ready)
    (hfree : ∀ t, Stands x.world d (.terminal t) → t.requests ∉ held) :
    ∃ acts, Others d x acts w := by
  obtain ⟨t, hinv⟩ := inv_of_reached h
  obtain ⟨requests, read, os, left, -, hruns⟩ := hinv.account
  have hold : t.isEnded = false → t.requests < x.world.bus.nextId := fun hrunning => by
    obtain ⟨inbox, taken, -, htracks⟩ := (hruns hrunning).tracks
    exact hinv.agrees.old _ htracks.mem_roster
  have hrequests := hfree t hinv.stands
  obtain ⟨acts, hbus, hacts⟩ := hw.avoids hinv.agrees
  refine ⟨acts, hbus, htask, fun t' ht' hrunning a ha => ?_, hkept, fun t' ht' hawaits hne => ?_⟩
  · obtain rfl := hinv.eq_of_stands ht'
    exact (hacts a ha).2 _ (hold hrunning) hrequests
  · obtain rfl := hinv.eq_of_stands ht'
    have hrunning := isEnded_of_awaits hawaits
    refine absurd ?_ hne
    rw [Bus.inbox, Bus.inbox, hw.mailbox hinv.agrees hrequests (hold hrunning)]

/-- Others may send messages, -/
theorem others_send (d : TaskId) (x : Serving) (o : Outgoing) :
    Others d x [.publish ⟨o.channel, x.world.stamp o⟩] (x.world.send o) := by
  have hsend := roused_send x.world o
  refine ⟨hsend.bus, hsend.task? d, fun t _ _ a ha => ?_, hsend.kept d, fun t _ _ hne => ?_⟩
  · rw [List.mem_singleton.1 ha]
    exact ⟨nofun, nofun⟩
  · exact absurd (congrArg (Bus.inbox · t.requests) hsend.bus) hne

/-- and let time pass, -/
theorem others_moveClock (d : TaskId) (x : Serving) (time : Nat) :
    Others d x [] (x.world.moveClock time) := by
  let now := max x.world.clock time
  have hroused := Schedule.roused_signal { x.world with clock := now, alarm := now } (.clock now)
  refine ⟨hroused.bus, hroused.task? d, fun _ _ _ _ => nofun, hroused.kept d, fun t _ _ hne => ?_⟩
  exact absurd (congrArg (Bus.inbox · t.requests) hroused.bus) hne

/-- An event that goes into the terminal's mailbox rouses the terminal if it waits for that. -/
theorem Inv.roused_dispatch (h : Inv d before x t) (hawaits : t.awaits (.mail t.requests) = true)
    {e : Event Message} {es : List (Event Message)} (hq : x.world.bus.backend.queue = e :: es)
    {ready : List TaskId} (hmail : ∀ i ∈ x.world.bus.recipients e.channel, ∀ t ∈ x.world.tasks,
      Schedule.heeds (.mail i) t = true → t.id ∈ ready)
    (hne : x.world.bus.dispatch.inbox t.requests ≠ x.world.bus.inbox t.requests) : d ∈ ready := by
  obtain ⟨requests, read, os, left, -, hruns⟩ := h.account
  obtain ⟨inbox, taken, -, htracks⟩ := (hruns (isEnded_of_awaits hawaits)).tracks
  cases hc : x.world.bus.connected with
  | false =>
    rw [Bus.dispatch_of_rest (.inl hc)] at hne
    exact absurd rfl hne
  | true =>
    by_cases he : e.channel = Channel.inputRequest
    · refine hmail t.requests ?_ _ (Schedule.task?_eq_some h.stands).1 hawaits
      rw [← List.count_pos_iff, h.agrees.count_recipients htracks.mem_roster, he]
      exact Nat.one_pos
    · refine absurd ?_ hne
      have hafter := (htracks.dispatch h.agrees hc hq).mailbox
      rw [if_neg (by simpa using he), List.append_nil] at hafter
      rw [Bus.inbox_of_subscription? hafter, Bus.inbox_of_subscription? htracks.mailbox]

/-- and the dispatcher may take its turn. -/
theorem others_dispatch (h : Reached d before x) {i : TaskId} {rest : List TaskId}
    (hready : x.world.ready = i :: rest)
    (hi : x.world.task? i = some { id := i, role := .dispatcher }) :
    Others d x [.dispatch] (x.world.step program) := by
  obtain ⟨t, hinv⟩ := inv_of_reached h
  have havoids : ∀ t', Stands x.world d (.terminal t') → t'.isEnded = false →
      ∀ a ∈ ([.dispatch] : List (Bus.Act Message)), a.Avoids t'.requests := fun t' _ _ a ha => by
    rw [List.mem_singleton.1 ha]
    exact ⟨nofun, nofun⟩
  have hdue : d ∈ x.world.ready → d ∈ rest := fun hd => by
    rw [hready] at hd
    refine (List.mem_cons.1 hd).resolve_left ?_
    rintro rfl
    cases hi.symm.trans hinv.stands
  let popped : World := { x.world with ready := rest }
  have hstep : x.world.step program = popped.dispatchTurn i := Schedule.step_dispatcher hready hi
  rw [hstep]
  cases hq : x.world.bus.backend.queue with
  | nil =>
    rw [Schedule.dispatchTurn_of_rest (s := popped) hq]
    refine ⟨(Bus.dispatch_of_rest (.inr hq)).symm, rfl, havoids, hdue, fun _ _ _ hne => ?_⟩
    exact absurd rfl hne
  | cons e es =>
    obtain ⟨hroused, -, hmail⟩ := Schedule.dispatchTurn_spec (s := popped) hq i
    refine ⟨hroused.bus, hroused.task? d, havoids, fun hd => hroused.kept d (hdue hd),
      fun t' ht' hawaits hne => ?_⟩
    obtain rfl := hinv.eq_of_stands ht'
    rw [hroused.bus] at hne
    exact hinv.roused_dispatch hawaits hq hmail hne

/-- or close all mailboxes. -/
theorem others_closeAll (h : Reached d before x) : Others d x [.closeAll] x.world.closeAll := by
  obtain ⟨t, hinv⟩ := inv_of_reached h
  obtain ⟨requests, read, os, left, -, hruns⟩ := hinv.account
  let closed : World := { x.world with bus := x.world.bus.closeAll }
  have hroused : Schedule.Roused closed x.world.closeAll := Schedule.roused_signals _ _
  refine ⟨hroused.bus, hroused.task? d, fun t' _ _ a ha => ?_, hroused.kept d,
    fun t' ht' hawaits _ => ?_⟩
  · rw [List.mem_singleton.1 ha]
    exact ⟨nofun, nofun⟩
  · obtain rfl := hinv.eq_of_stands ht'
    obtain ⟨inbox, taken, -, htracks⟩ := (hruns (isEnded_of_awaits hawaits)).tracks
    have hall : t'.requests ∈ x.world.bus.table.all :=
      List.count_pos_iff.1 (hinv.agrees.count_all_pos htracks.mailbox)
    exact Schedule.mem_ready_signals (s := closed) hall (Schedule.task?_eq_some ht').1 hawaits

/-- What others do one after the other is one thing that they do. -/
theorem Others.trans {acts acts' : List (Bus.Act Message)} {w w' : World} (h : Others d x acts w)
    (h' : Others d (x.passed w acts) acts' w') :
    Others d x (acts ++ acts') w' := by
  have hstands : ∀ t, Stands x.world d (.terminal t) → Stands w d (.terminal t) :=
    fun t ht => h.task.trans ht
  refine ⟨?_, h'.task.trans h.task, fun t ht hruns a ha => ?_, fun hd => h'.kept (h.kept hd),
    fun t ht hawaits hne => ?_⟩
  · rw [h'.bus, passed, h.bus, Bus.run_append]
  · rcases List.mem_append.1 ha with ha | ha
    · exact h.avoids t ht hruns a ha
    · exact h'.avoids t (hstands t ht) hruns a ha
  · by_cases hsame : w.bus.inbox t.requests = x.world.bus.inbox t.requests
    · rw [← hsame] at hne
      exact h'.roused t (hstands t ht) hawaits hne
    · exact h'.kept (h.roused t ht hawaits hsame)

/-! ## Line by line -/

theorem channels_of_sends {os : List Outgoing} {es : List (Event Message)}
    (h : List.Forall₂ Sends os es) : es.map (·.channel) = os.map (·.channel) := by
  induction h with
  | nil => rfl
  | cons hone _ ih =>
    obtain ⟨id, now, rfl⟩ := hone
    exact congrArg (_ :: ·) ih

/-- When no task is due, a terminal that waits for requests and lines has used up the ones or the
others. -/
theorem Runs.at_rest (h : Runs d before x t requests left) (hrest : x.world.ready = [])
    (hwatch : t.watch = .all) :
    if left = [] then requests = x.requested before else t.lines = [] := by
  have hidle : t.Idle x.world := by
    by_contra hidle
    have hdue := h.due hwatch hidle
    rw [hrest] at hdue
    exact List.not_mem_nil hdue
  have hrequested := h.requested_eq
  obtain ⟨inbox, taken, -, htracks⟩ := h.tracks
  rw [h.opened]
  unfold Terminal.Idle at hidle
  split at hidle
  · next request hopen =>
    rw [hopen]
    exact hidle
  · next hopen =>
    obtain rfl := htracks.of_waiting hidle
    rw [waiting, Bus.inbox_of_subscription? htracks.mailbox] at hrequested
    rw [hopen, Option.toList_none, if_pos rfl, hrequested]
    exact (List.append_nil _).symm

/-- **The terminal answers line by line.** Whatever requests come and whatever lines are entered,
the terminal has taken the first of the requests and used the first of the lines, and it has
published what `Terminal.serve` says of them, and nothing else: the requests that are no longer open
have been answered once each, in order and on their own reply channels, and everything else are
requests for completions. While it runs, it has at most one request open, and has taken all others
but those in its mailbox. When no task is due and it does not wait for completions, it has taken
every request, or used every line for the one that is open. -/
theorem line_by_line (h : Reached d before x) :
    ∃ t requests read os left, Stands x.world d (.terminal t) ∧
      requests <+: x.requested before ∧ x.entered = read ++ t.lines ∧
      Terminal.serve requests read = some (os, left) ∧ List.Forall₂ Sends os x.sent ∧
      (∃ answered, requests = answered ++ left ∧
        (x.sent.map (·.channel)).filter (· != "completion_request") =
          answered.map (·.replyChannel)) ∧
      (t.isEnded = false → left = t.open?.toList ∧ x.requested before = requests ++ x.waiting t ∧
        (x.world.ready = [] → t.watch = .all →
          if left = [] then requests = x.requested before else read = x.entered)) := by
  obtain ⟨t, hinv⟩ := inv_of_reached h
  obtain ⟨requests, read, os, left, haccount, hruns⟩ := hinv.account
  refine ⟨t, requests, read, os, left, hinv.stands, haccount.taken, haccount.lines,
    haccount.served, haccount.sent, ?_, fun hrunning => ?_⟩
  · rw [channels_of_sends haccount.sent]
    exact Terminal.exists_answered haccount.served
  · have hrunning := hruns hrunning
    refine ⟨hrunning.opened, hrunning.requested_eq, fun hrest hwatch => ?_⟩
    have hused := hrunning.at_rest hrest hwatch
    by_cases hleft : left = []
    · rwa [if_pos hleft] at hused ⊢
    · rw [if_neg hleft] at hused ⊢
      rw [haccount.lines, hused, List.append_nil]

/-! ## A line that asks for completions, and one that answers -/

/-- After a turn of the dispatcher. -/
def dispatched (x : Serving) : Serving := x.passed (x.world.step program) [.dispatch]

theorem Reached.turned (h : Reached d before x) (acts : List (Bus.Act Message))
    (hready : x.world.ready.head? = some d)
    (hb : (x.world.step program).bus = x.world.bus.run acts) (ha : .dispatch ∉ acts) :
    Reached d before (x.turned acts) := by
  obtain ⟨rest, hrest⟩ := List.head?_eq_some_iff.1 hready
  obtain ⟨t, hinv⟩ := inv_of_reached h
  exact h.step (.terminal hrest hinv.stands hb ha)

theorem Reached.dispatched (h : Reached d before x) {i : TaskId}
    (hready : x.world.ready.head? = some i)
    (hi : x.world.task? i = some { id := i, role := .dispatcher }) :
    Reached d before x.dispatched := by
  obtain ⟨rest, hrest⟩ := List.head?_eq_some_iff.1 hready
  exact h.step (.others (others_dispatch h hrest hi))

/-- A dispatcher and a terminal are about to start. -/
def unstarted : World :=
  let w : World := { ({ shared := {} } : World).spawnRole .dispatcher with
    bus := { connected := true }
    dispatcher := some 0 }
  (Play.attach w "q" [] false).2.spawn (.terminal (Play.attach w "q" [] false).1)

/-- The terminal before its first turn. -/
def attached : Terminal := Showing.fresh [.connect true] "q" [] false

def lines : List String := ["/he\t", "/help"]

def publish (x : Serving) (o : Outgoing) : Bus.Act Message := .publish ⟨o.channel, x.world.stamp o⟩

/-- Two lines have been entered, and somebody has requested one. -/
def asked : Serving :=
  let x := Serving.entering { world := unstarted } 1 attached lines
  x.passed (x.world.send (.lineRequest false)) [x.publish (.lineRequest false)]

theorem reached_asked : Reached 1 [.connect true] asked := by
  have hstands : Stands unstarted 1 (.terminal attached) := rfl
  have hstart : Reached 1 [.connect true] { world := unstarted } :=
    .start rfl nofun hstands (by decide)
  exact (hstart.step (.user hstands lines)).step (.others (others_send 1 _ (.lineRequest false)))

/-- The terminal has taken the request. -/
def opened : Serving := asked.dispatched.dispatched.turned [.read 1]

theorem reached_opened : Reached 1 [.connect true] opened :=
  ((reached_asked.dispatched rfl rfl).dispatched rfl rfl).turned [.read 1] rfl rfl (by simp)

/-- It has used the first line, and nobody has answered for so long. -/
def reopened : Serving :=
  let o := Terminal.completionRequest "/he"
  let x := opened.turned
    [opened.publish o, .subscribe (.channel (opened.world.stamp o).replyChannel)]
  (x.passed (x.world.moveClock 2000) []).turned [.drop 3]

theorem reached_reopened : Reached 1 [.connect true] reopened := by
  have hasks := reached_opened.turned
    [opened.publish (Terminal.completionRequest "/he"),
      .subscribe (.channel (opened.world.stamp (Terminal.completionRequest "/he")).replyChannel)]
    rfl rfl (by simp [publish])
  have hpassed := hasks.step (.others (others_moveClock 1 _ 2000))
  exact hpassed.turned [.drop 3] rfl rfl (by simp)

def request : Message := unstarted.stamp (.lineRequest false)

/-- The terminal with the request open again. -/
def prompting : Terminal :=
  { attached with
    lines := ["/help"]
    pending := some request
    printed := [.prompt false, .prompt false] }

/-- It answers with the second line, -/
theorem bus_reopened : (reopened.world.step program).bus =
    reopened.world.bus.run [reopened.publish (Terminal.answer request "/help")] := by
  have hready : reopened.world.ready = [1] := rfl
  have hstands : Stands reopened.world 1 (.terminal prompting) := rfl
  have hturn : (prompting.turn { reopened.world with ready := [] }).1 =
      Schedule.send { reopened.world with ready := [] } (Terminal.answer request "/help") := rfl
  rw [bus_step hready hstands, hturn]
  rfl

def replied : Serving := reopened.turned [reopened.publish (Terminal.answer request "/help")]

/-- The terminal without a request and without lines. -/
def resting : Terminal := { prompting with lines := [], pending := none }

/-- and then it waits. -/
theorem bus_replied : (replied.world.step program).bus = replied.world.bus.run [] := by
  have hready : replied.world.ready = [1] := rfl
  have hstands : Stands replied.world 1 (.terminal resting) := rfl
  rw [bus_step hready hstands]
  rfl

theorem reached_rested : Reached 1 [.connect true] (replied.turned []) := by
  have hreplied : Reached 1 [.connect true] replied :=
    reached_reopened.turned _ rfl bus_reopened (by simp [publish])
  exact hreplied.turned [] rfl bus_replied List.not_mem_nil

theorem line_by_line_help :
    let os : List Outgoing := [
      { channel := "completion_request", source := .client, data := .text "/he", extra := [] },
      { channel := "input_request:00000000-0000-0000-0000-000000000000"
        source := .client
        data := .text "/help"
        extra := [] }]
    ∃ x, Reached 1 [.connect true] x ∧ x.world.ready = [] ∧
      x.requested [.connect true] = [request] ∧ x.entered = ["/he\t", "/help"] ∧
      Terminal.serve [request] x.entered = some (os, []) ∧ List.Forall₂ Sends os x.sent ∧
      (x.sent.map (·.channel)).filter (· != "completion_request") = [request.replyChannel] := by
  intro os
  let x := replied.turned []
  have hstands : Stands x.world 1 (.terminal resting) := rfl
  have hserve : Terminal.serve [request] lines = some (os, []) := rfl
  obtain ⟨t, requests, read, os, left, ht, -, hread, hserved, hsent,
    ⟨answered, hanswered, hchannels⟩, hruns⟩ := line_by_line reached_rested
  cases ht.symm.trans hstands
  obtain ⟨rfl, -, hrest⟩ := hruns rfl
  have hrequests : requests = [request] := hrest rfl rfl
  have hlines : lines = read := hread.trans (List.append_nil read)
  subst hrequests hlines
  cases hserve.symm.trans hserved
  refine ⟨x, reached_rested, rfl, rfl, rfl, hserve, hsent, ?_⟩
  rw [hchannels, ← List.append_nil answered]
  exact congrArg (List.map (·.replyChannel)) hanswered.symm

end Serving
end Parley
