import Parley.Proofs.Session.Lifetime
import Parley.Proofs.Terminal.Telling

/-!
# The terminal prints everything, in order

What the terminal prints of the conversation is what has been published, from the start and in
order. When it takes a request, it has printed what was published before that; when it ends, it has
printed what was published before the end of the session, unless others have closed the bus or
replied to a request for completions with something else (`Showing.printed_in_order`). The session's
own replies are lists of completions (`listOfValue?_completionReply`). What had been published
before the terminal came is in that order too if the terminal came early (`Showing.Early`); else
what had waited for it comes in the order in which it was queued.

A play starts as a showing does (`Showing.comes_start`), and the turns of its tasks are steps of a
showing (`Showing.Comes`).
-/

set_option autoImplicit false

namespace Parley

open Exchange (Stands)

namespace Showing

structure Inv (s d : TaskId) (before : List (Bus.Act Message)) (x : Showing) : Prop where
  bus : x.world.bus = (attached before).run x.acts
  terminal : ∀ t, Placed x.world d t → Tells s before x t

section
variable {s d : TaskId} {before : List (Bus.Act Message)} {x y : Showing} {t t' : Terminal}

/-! ## Steps -/

theorem Inv.step_session (hx : Inv s d before x) {stage : Stage} {rest : List TaskId}
    {acts : List (Bus.Act Message)} (h : x.world.ready = s :: rest)
    (hs : Stands x.world s (.session stage))
    (hb : (x.world.step program).bus = x.world.bus.run acts) (ha : .dispatch ∉ acts) :
    Inv s d before { x with world := x.world.step program, acts := x.acts ++ acts } := by
  let w : World := { x.world with ready := rest }
  let y : Showing := { x with world := x.world.step program, acts := x.acts ++ acts }
  have hturn : Turn before x y := ⟨hx.bus, ⟨acts, rfl, hb, ha⟩, rfl⟩
  have hstep : x.world.step program = Schedule.settleTurn s (sessionTurn (stage.turn w)) :=
    Schedule.step_own h hs
  obtain ⟨hbus, -, htasks⟩ :=
    Schedule.settleTurn_spec (sessionTurn_progress (stage.turn w)) s
  rw [← hstep] at hbus htasks
  refine ⟨hturn.next, fun t ⟨c, ht⟩ => ?_⟩
  rw [htasks] at ht
  have hplaced : Placed x.world d t :=
    stage.terminals_turn w (Schedule.task?_of_place ht (by simp))
  have htells := hx.terminal t hplaced
  refine htells.continue (.refl t) rfl rfl (fun hruns => ?_) fun fault hfault =>
    ended_mono (y := y) rfl (fun _ => id) (htells.ended fault hfault)
  refine (htells.running hruns).session_turn (w := w) htells.listens hturn hs rfl hbus rfl ?_
  intro stage' hstage'
  have hstands := (htasks s).symm.trans hstage'
  cases Schedule.eq_of_placed hstands
  rfl

theorem Inv.step_terminal (hx : Inv s d before x) {t : Terminal} {rest : List TaskId}
    {acts : List (Bus.Act Message)} (h : x.world.ready = d :: rest)
    (ht : Stands x.world d (.terminal t))
    (hb : (x.world.step program).bus = x.world.bus.run acts) (ha : .dispatch ∉ acts) :
    Inv s d before { x with
      world := x.world.step program
      acts := x.acts ++ acts
      prompts := x.prompts ++ (t.prompted? { x.world with ready := rest }).toList } := by
  let w : World := { x.world with ready := rest }
  let y : Showing := { x with
    world := x.world.step program
    acts := x.acts ++ acts
    prompts := x.prompts ++ (t.prompted? w).toList }
  have hturn : Turn before x y := ⟨hx.bus, ⟨acts, rfl, hb, ha⟩, rfl⟩
  have hstep : x.world.step program = Schedule.settleTurn d (t.turn w) := Schedule.step_own h ht
  obtain ⟨t', hgoes, hmoves⟩ := t.moves_turn w
  obtain ⟨hbus, -, htasks⟩ := Schedule.settleTurn_spec hgoes d
  rw [← hstep] at hbus htasks
  refine ⟨hturn.next, fun t'' ⟨c, ht''⟩ => ?_⟩
  rw [htasks] at ht''
  cases Schedule.eq_of_placed ht''
  have htells := hx.terminal t ⟨false, ht⟩
  have hs : ∀ stage, Stands y.world s (.session stage) → Stands x.world s (.session stage) := by
    intro stage hs
    rw [Stands, htasks] at hs
    have hstood := Schedule.task?_of_place hs (by simp)
    rw [Schedule.task?, hmoves.tasks] at hstood
    exact hstood
  exact htells.moves (w := w) hturn rfl hmoves hbus rfl hs

/-- What the user does at the terminal leaves what it waits for and what it has printed. -/
theorem touches_spec (h : Sitting.Touches t t') :
    t.Continues t' ∧ t'.watch = t.watch ∧ t'.printed = t.printed := by
  cases h <;> exact ⟨.of_printed rfl rfl rfl rfl fun _ hr => hr, rfl, rfl⟩

theorem goes_touches {w : World} (h : Sitting.Touches t t') (hruns : t.isEnded = false) :
    t.Goes w w t' := by
  obtain ⟨hcontinues, hwatch, -⟩ := touches_spec h
  have hown : t'.own = t.own := by rw [Terminal.own, hwatch, Terminal.own]
  refine ⟨hcontinues, ?_, hown ▸ .rest, fun _ _ hid => .inl (hown ▸ hid)⟩
  rw [Terminal.isEnded, hwatch]
  exact hruns

theorem Inv.step_user (hx : Inv s d before x) (ht : Stands x.world d (.terminal t))
    (h : Sitting.Touches t t') (signal : Signal) :
    Inv s d before { x with world := (x.world.place d (.terminal t')).signal signal } := by
  let y : Showing := { x with world := (x.world.place d (.terminal t')).signal signal }
  have hroused := Schedule.roused_signal (x.world.place d (.terminal t')) signal
  have hbus : y.world.bus = x.world.bus := hroused.bus
  have hturn : Turn before x y :=
    ⟨hx.bus, ⟨[], (List.append_nil _).symm, hbus, List.not_mem_nil⟩, rfl⟩
  refine ⟨hturn.next, fun t'' ⟨c, ht''⟩ => ?_⟩
  rw [hroused.task?] at ht''
  cases Schedule.eq_of_placed ht''
  have htells := hx.terminal t ⟨false, ht⟩
  have hs : ∀ stage, Stands y.world s (.session stage) → Stands x.world s (.session stage) := by
    intro stage hs
    rw [Stands, hroused.task?] at hs
    exact Schedule.task?_of_place hs (by simp)
  obtain ⟨hcontinues, hwatch, hshown⟩ := touches_spec h
  refine htells.continue hcontinues (List.append_nil _).symm rfl (fun hruns => ?_)
    fun fault hfault => ?_
  · rw [Terminal.isEnded, hwatch, ← Terminal.isEnded] at hruns
    exact (htells.running hruns).goes htells.listens hturn rfl hs (goes_touches h hruns) hbus rfl
  · rw [hshown]
    exact htells.ended fault (hwatch ▸ hfault)

theorem Inv.step_others (hx : Inv s d before x) {w : World} {acts : List (Bus.Act Message)}
    (hb : w.bus = x.world.bus.run acts)
    (ha : ∀ t, Placed x.world d t → ∀ id ∈ t.holds, ∀ a ∈ acts, a.Avoids id)
    (hs : ∀ stage, Stands w s (.session stage) → Stands x.world s (.session stage))
    (ht : ∀ t, Placed w d t → Placed x.world d t) :
    Inv s d before
      { x with world := w, acts := x.acts ++ acts, outside := x.outside ++ acts } := by
  refine ⟨run_acts hx.bus rfl hb, fun t hplaced => ?_⟩
  have htells := hx.terminal t (ht t hplaced)
  refine htells.continue (.refl t) rfl rfl (fun hruns => ?_) fun fault hfault =>
    ended_mono (x := x) rfl (fun _ ha => List.mem_append_left _ ha) (htells.ended fault hfault)
  refine (htells.running hruns).others htells.listens hx.bus hb (fun a hmem id hid => ?_) hs
  exact ha t (ht t hplaced) id (Terminal.mem_holds hruns hid) a hmem

/-! ## The start -/

section
variable (before : List (Bus.Act Message)) (exitWord : String) (lines : List String)
  (inputEnded : Bool)

theorem listens_fresh : Listens before (fresh before exitWord lines inputEnded) where
  output := (tracks_fresh (i := 0) rfl).mem_roster
  requests := (tracks_fresh (i := 1) rfl).mem_roster
  exits := (tracks_fresh (i := 2) rfl).mem_roster

theorem mail_fresh {w : World} (hw : w.bus = attached before) :
    Mail before { world := w } (fresh before exitWord lines inputEnded) [] [] [] where
  output := hw ▸ tracks_fresh (i := 0) rfl
  requests := hw ▸ tracks_fresh (i := 1) rfl
  exits := hw ▸ tracks_fresh (i := 2) rfl
  marks := nofun
  ended := nofun

end

theorem inv_start {w : World} {exitWord : String} {lines : List String} {inputEnded : Bool}
    {acts : List (Bus.Act Message)} (hb : w.bus = (attached before).run acts)
    (ha : ∀ id ∈ (fresh before exitWord lines inputEnded).holds, ∀ a ∈ acts, a.Avoids id)
    (hs : Stands w s (.session (.unstarted .session)))
    (ht : Stands w d (.terminal (fresh before exitWord lines inputEnded))) :
    Inv s d before { world := w, acts, outside := acts } := by
  -- the account starts when the terminal has listened, and others have been at the bus since
  let first : Showing := { world := { w with bus := attached before } }
  have hlistens := listens_fresh before exitWord lines inputEnded
  have hfirst : Running s before first (fresh before exitWord lines inputEnded) := by
    refine ⟨⟨[], [], [], mail_fresh before exitWord lines inputEnded rfl⟩, nofun,
      fun stage hstage => ?_⟩
    cases hs.symm.trans hstage
    exact ⟨.inl rfl, nofun, nofun, nofun⟩
  refine ⟨hb, fun t ⟨c, hplaced⟩ => ?_⟩
  cases ht.symm.trans hplaced
  refine ⟨hlistens, List.nil_prefix, fun earlier p later hsplit => ?_, fun ps p qs hsplit => ?_,
    nofun, fun _ => ?_, nofun⟩
  · cases earlier <;> cases hsplit
  · cases ps <;> cases hsplit
  · refine hfirst.others hlistens rfl hb (fun a hmem id hid => ?_) fun _ => id
    exact ha id (Terminal.mem_holds rfl hid) a hmem

theorem inv_of_reached (h : Reached s d before x) : Inv s d before x := by
  induction h with
  | start hb ha hs ht => exact inv_start hb ha hs ht
  | step _ h ih =>
    cases h with
    | session h hs hb ha => exact ih.step_session h hs hb ha
    | terminal h ht hb ha => exact ih.step_terminal h ht hb ha
    | user ht h signal => exact ih.step_user ht h signal
    | others hb ha hs ht => exact ih.step_others hb ha hs ht

/-- The record of a showing is what has been done on its bus. -/
theorem Reached.bus (h : Reached s d before x) :
    x.world.bus = Bus.run {} (before ++ Bus.listening Terminal.channels ++ x.acts) := by
  rw [(inv_of_reached h).bus, attached, ← Bus.run_append]

/-! ## In the order of publication -/

/-- The terminal came before anything was handed out on its channels: nobody had listened there, or
nothing at all had been handed out, and there had been no request and no end of a session. -/
inductive Early (before : List (Bus.Act Message)) : Prop
  | first (h : ∀ a ∈ before, ∀ c ∈ Terminal.channels, a.Leaves c)
  | waiting (hd : .dispatch ∉ before) (hp : ∀ e ∈ Bus.published before,
      e.channel ≠ Channel.inputRequest ∧ e.channel ≠ Channel.sessionExit)

theorem Early.handed (h : Early before) {c : String} (hc : c ∈ Terminal.channels) :
    Event.on c (Bus.handed {} before) = [] := by
  cases h with
  | first h =>
    have hempty : ({} : Bus Message).Unattended c := ⟨nofun, rfl⟩
    exact (Bus.agrees_empty.unattended_run hempty fun a ha => h a ha c hc).2
  | waiting hd _ =>
    rw [Bus.handed_of_no_dispatch hd]
    rfl

/-- On the default channel an early terminal is handed what has been published there. -/
theorem Early.on_coming (h : Early before) : Event.on Channel.default (coming before x) =
    Event.on Channel.default (published before x) := by
  rw [coming, Event.on_filter_contains mem_channels_default, Event.on_append, attached,
    Bus.on_queue_listening mem_channels_default (h.handed mem_channels_default), published,
    Event.on_append]

theorem Early.behind (h : Early before) {shown firsts : List (Event Message)} {e : Event Message}
    (he : e.channel = Channel.inputRequest ∨ e.channel = Channel.sessionExit)
    (hbehind : Event.Behind Channel.default shown firsts e (coming before x)) :
    Event.Behind Channel.default shown firsts e (published before x) := by
  cases h with
  | first h => exact Bus.behind_published nodup_channels h (by simpa using he) hbehind
  | waiting hd hp =>
    have hchannel : e.channel ∈ Terminal.channels := by
      rcases he with he | he
      · exact he ▸ mem_channels_request
      · exact he ▸ mem_channels_exit
    have hnone : Event.on e.channel (Bus.published before) = [] := by
      refine List.filter_eq_nil_iff.2 fun e' he' hsame => ?_
      obtain ⟨hrequest, hexit⟩ := hp e' he'
      rw [eq_of_beq hsame] at hrequest hexit
      exact he.elim hrequest hexit
    exact Bus.behind_published_of_none mem_channels_default hchannel hd hnone hbehind

/-- What the terminal has printed, told by the events `es`: each message of the conversation once,
in order, and as messages are rendered; before each prompt all of it that comes before the request;
and at the end all of it that comes before the end of the session, unless others have closed the
bus, or have replied to a request for completions with something else. -/
structure InOrder (before : List (Bus.Act Message)) (x : Showing) (t : Terminal)
    (es : List (Event Message)) : Prop where
  printed : conversation t.printed <+: Event.on Channel.default es
  rendered : ∀ color, Print.messageTexts color t.printed <+:
    (Event.on Channel.default es).map fun e => Print.renderMessage color e.payload
  prompts : ∀ earlier p later, x.prompts = earlier ++ p :: later → p.Timely earlier t.printed es
  ended : ∀ fault, t.watch = .ended fault → .closeAll ∈ x.outside ∨
    Covered (conversation t.printed) es ∨ fault.isSome ∧ Garbled before x

theorem InOrder.of_tells (h : Tells s before x t) : InOrder before x t (coming before x) where
  printed := h.printed
  rendered color := by
    have hmap := h.printed.map fun e => Print.renderMessage color e.payload
    rw [conversation, List.map_map] at hmap
    rw [Print.messageTexts_eq]
    exact hmap
  prompts := h.prompts
  ended := h.ended

theorem InOrder.early (h : InOrder before x t (coming before x)) (hearly : Early before) :
    InOrder before x t (published before x) where
  printed := hearly.on_coming ▸ h.printed
  rendered := hearly.on_coming ▸ h.rendered
  prompts earlier p later hsplit :=
    have htimely := h.prompts earlier p later hsplit
    ⟨htimely.prompt, hearly.behind (.inl rfl) htimely.behind⟩
  ended fault hfault := by
    refine (h.ended fault hfault).imp_right (.imp_left fun ⟨e, hchannel, hbehind⟩ => ?_)
    exact ⟨e, hchannel, hearly.behind (.inr hchannel) hbehind⟩

/-- **The terminal prints everything, in order.** What it prints is told by what was queued for it
when it came and what has been published since, and every prompt is for the request that had been
taken last. If it came early, what it prints is told by all that has been published, in order. -/
theorem printed_in_order (h : Reached s d before x) (ht : Placed x.world d t) :
    Asked t.printed x.prompts ∧ InOrder before x t (coming before x) ∧
      (Early before → InOrder before x t (published before x)) := by
  have htells := (inv_of_reached h).terminal t ht
  have hcoming := InOrder.of_tells htells
  exact ⟨htells.asked, hcoming, hcoming.early⟩

/-! ## Turns that are due -/

/-- A world to which a showing comes while none of the others closes the bus, and the requests
taken. -/
def Comes (s d : TaskId) (before : List (Bus.Act Message)) (w : World) (prompts : List Prompted) :
    Prop :=
  ∃ acts outside, Reached s d before { world := w, acts, outside, prompts } ∧ .closeAll ∉ outside

section
variable {w w' : World} {prompts : List Prompted} (h : Comes s d before w prompts)
include h

/-- Whatever turn the session has, it is a step. -/
theorem Comes.session {stage : Stage} (hready : w.ready.head? = some s)
    (hs : Stands w s (.session stage)) : Comes s d before (w.step program) prompts := by
  obtain ⟨acts, outside, hx, hopen⟩ := h
  obtain ⟨rest, hrest⟩ := List.head?_eq_some_iff.1 hready
  let led := stage.turn { w with ready := rest }
  obtain ⟨more, hbus, hmore⟩ := stage.acts_turn { w with ready := rest }
  have hnone : .dispatch ∉ more := fun hdispatch => hmore _ hdispatch rfl
  have hstep : w.step program = Schedule.settleTurn s (sessionTurn led) :=
    Schedule.step_own hrest hs
  have hsame := (Schedule.settleTurn_spec (sessionTurn_progress led) s).1
  rw [← hstep] at hsame
  exact ⟨acts ++ more, outside, hx.step (.session hrest hs (hsame.trans hbus) hnone), hopen⟩

/-- Whatever turn the terminal has, it is a step. -/
theorem Comes.terminal {t : Terminal} (hready : w.ready.head? = some d)
    (ht : Stands w d (.terminal t)) :
    Comes s d before (w.step program)
      (prompts ++ (t.prompted? { w with ready := w.ready.tail }).toList) := by
  obtain ⟨acts, outside, hx, hopen⟩ := h
  obtain ⟨rest, hrest⟩ := List.head?_eq_some_iff.1 hready
  obtain ⟨t', hgoes, hmoves⟩ := t.moves_turn { w with ready := rest }
  obtain ⟨more, hbus, hnone⟩ := hmoves.acts
  have hstep : w.step program = Schedule.settleTurn d (t.turn { w with ready := rest }) :=
    Schedule.step_own hrest ht
  have hsame := (Schedule.settleTurn_spec hgoes d).1
  rw [← hstep] at hsame
  have hnext := hx.step (.terminal hrest ht (hsame.trans hbus) hnone)
  rw [show w.ready.tail = rest by rw [hrest]; rfl]
  exact ⟨acts ++ more, outside, hnext, hopen⟩

theorem Comes.others (acts : List (Bus.Act Message)) (hb : w'.bus = w.bus.run acts)
    (hopen : .closeAll ∉ acts)
    (ha : ∀ t, Placed w d t → ∀ id ∈ t.holds, ∀ a ∈ acts, a.Avoids id)
    (ht : ∀ i, i = s ∨ i = d → w'.task? i = w.task? i) : Comes s d before w' prompts := by
  obtain ⟨old, outside, hx, hold⟩ := h
  have hsession : ∀ stage, Stands w' s (.session stage) → Stands w s (.session stage) :=
    fun stage hs => (ht s (.inl rfl)).symm.trans hs
  have hterminal : ∀ t, Placed w' d t → Placed w d t :=
    fun t ⟨c, hplaced⟩ => ⟨c, (ht d (.inr rfl)).symm.trans hplaced⟩
  refine ⟨old ++ acts, outside ++ acts, hx.step (.others hb ha hsession hterminal), ?_⟩
  rw [List.mem_append, not_or]
  exact ⟨hold, hopen⟩

theorem Comes.popped (rest : List TaskId) : Comes s d before { w with ready := rest } prompts :=
  h.others [] rfl List.not_mem_nil (fun _ _ _ _ => nofun) fun _ _ => rfl

/-- Somebody who minds the subscriptions that he holds, and holds none of the terminal's. -/
theorem Comes.conduct {held held' : List SubscriptionId}
    (hw : Bus.Conduct held w.bus held' w'.bus)
    (hfree : ∀ t, Placed w d t → ∀ id ∈ t.holds, id ∉ held)
    (ht : ∀ i, i = s ∨ i = d → w'.task? i = w.task? i) : Comes s d before w' prompts := by
  obtain ⟨old, outside, hx, hold⟩ := h
  have hinv := inv_of_reached hx
  obtain ⟨acts, hbus, hacts⟩ := hw.avoids (agrees_of_run hinv.bus)
  refine Comes.others ⟨old, outside, hx, hold⟩ acts hbus (fun hclose => (hacts _ hclose).1) ?_ ht
  intro t hplaced id hid a ha
  exact (hacts a ha).2 id ((hinv.terminal t hplaced).old hinv.bus hid) (hfree t hplaced id hid)

theorem Comes.responder {i : TaskId} (hs : i ≠ s) (hd : i ≠ d) {requests : SubscriptionId}
    (hready : w.ready.head? = some i)
    (hi : w.task? i = some { id := i, role := .own (.responder requests) })
    (hfree : ∀ t, Placed w d t → requests ∉ t.holds) :
    Comes s d before (w.step program) prompts := by
  obtain ⟨rest, hrest⟩ := List.head?_eq_some_iff.1 hready
  let popped : World := { w with ready := rest }
  have hstep : w.step program = Schedule.settleTurn i (responderTurn requests popped) :=
    Schedule.step_own hrest hi
  have hfree' : ∀ t, Placed popped d t → ∀ id ∈ t.holds, id ∉ [requests] := by
    rintro t hplaced id hid hmem
    exact hfree t hplaced (List.mem_singleton.1 hmem ▸ hid)
  have hother : ∀ j, j = s ∨ j = d → j ≠ i := by
    rintro j (rfl | rfl)
    · exact hs.symm
    · exact hd.symm
  have hcases := Life.responderTurn_cases requests popped
  rcases hcases with ⟨hhandles, hends⟩ | ⟨hhandles, hgoes⟩
  · have hended : w.step program = (responderTurn requests popped).1.remove i := by
      rw [hstep, ← Prod.eta (responderTurn requests popped), hends]
      rfl
    have hroused : (w.step program).bus = (responderTurn requests popped).1.bus := by
      rw [hended]
      exact (Schedule.roused_signal _ _).bus
    refine (h.popped rest).conduct (hroused ▸ hhandles.bus) hfree' fun j hj => ?_
    rw [hended, Schedule.task?_remove, if_neg (hother j hj), hhandles.task?]
  · obtain ⟨hbus, -, htasks⟩ := Schedule.settleTurn_spec hgoes i
    rw [← hstep] at hbus htasks
    refine (h.popped rest).conduct (hbus ▸ hhandles.bus) hfree' fun j hj => ?_
    rw [htasks, Schedule.task?_place_of_ne _ (hother j hj), hhandles.task?]

/-- A cancelled task gives back what it holds. -/
theorem Comes.cancelled {i : TaskId} (hs : i ≠ s) (hd : i ≠ d) {a : Activity}
    (hready : w.ready.head? = some i) (hi : w.task? i = some ⟨i, .own a, true⟩)
    (hfree : ∀ t, Placed w d t → ∀ id ∈ t.holds, id ∉ a.holds) :
    Comes s d before (w.step program) prompts := by
  obtain ⟨rest, hrest⟩ := List.head?_eq_some_iff.1 hready
  let popped : World := { w with ready := rest }
  have hstep : w.step program = (popped.releaseAll a.holds).remove i :=
    Schedule.step_cancelled hrest hi
  have hhandles : Handles (a.holds ++ []) popped [] (popped.releaseAll a.holds) :=
    handles_releaseAll popped a.holds
  rw [List.append_nil] at hhandles
  have hbus : (w.step program).bus = (popped.releaseAll a.holds).bus := by
    rw [hstep]
    exact (Schedule.roused_signal _ _).bus
  refine (h.popped rest).conduct (hbus ▸ hhandles.bus) hfree fun j hj => ?_
  have hne : j ≠ i := by
    rcases hj with rfl | rfl
    · exact hs.symm
    · exact hd.symm
  rw [hstep, Schedule.task?_remove, if_neg hne, hhandles.task?]

theorem Comes.dispatcher {i : TaskId} (hready : w.ready.head? = some i)
    (hi : w.task? i = some { id := i, role := .dispatcher }) :
    Comes s d before (w.step program) prompts := by
  obtain ⟨rest, hrest⟩ := List.head?_eq_some_iff.1 hready
  have hstep := Schedule.step_dispatcher (p := program) hrest hi
  cases hq : w.bus.backend.queue with
  | nil =>
    have hidle : w.step program = { w with ready := rest } :=
      hstep.trans (Schedule.dispatchTurn_of_rest (s := { w with ready := rest }) hq i)
    exact hidle ▸ h.popped rest
  | cons e queued =>
    obtain ⟨hroused, -, -⟩ := Schedule.dispatchTurn_spec (s := { w with ready := rest }) hq i
    rw [← hstep] at hroused
    refine h.others [.dispatch] hroused.bus (by simp) (fun _ _ _ _ a ha => ?_)
      fun j _ => hroused.task? j
    obtain rfl := List.mem_singleton.1 ha
    exact ⟨by simp, by simp⟩

end

theorem sends_spec (messages : List Outgoing) (w : World) :
    ∃ acts, (messages.foldl Schedule.send w).bus = w.bus.run acts ∧
      (∀ a ∈ acts, ∃ e, a = .publish e) ∧ (messages.foldl Schedule.send w).tasks = w.tasks ∧
      (messages.foldl Schedule.send w).nextTask = w.nextTask := by
  induction messages generalizing w with
  | nil => exact ⟨[], rfl, nofun, rfl, rfl⟩
  | cons o messages ih =>
    obtain ⟨acts, hbus, hacts, htasks, hnext⟩ := ih (w.send o)
    have hsent := handles_send [] w o
    refine ⟨.publish ⟨o.channel, w.stamp o⟩ :: acts, ?_, fun a ha => ?_,
      htasks.trans hsent.tasks, hnext.trans hsent.nextTask⟩
    · rw [List.foldl_cons, hbus, bus_send, Bus.run_cons, Bus.act]
    · exact (List.mem_cons.1 ha).elim (fun heq => ⟨_, heq⟩) (hacts a)

/-- A play starts as a showing does. -/
theorem comes_start (context : Context) (messages : List Outgoing) (lines : List String)
    (inputEnded : Bool) :
    Comes 0 1 [] (Play.start context messages lines inputEnded).world [] := by
  let w : World := (Play.attach { shared := context } (Play.exitWord context.settings) lines
    inputEnded).2
  obtain ⟨acts, hbus, hacts, htasks, hnext⟩ := sends_spec messages w
  have hpublish : ∀ id, ∀ a ∈ acts, a.Avoids id := fun id a ha => by
    obtain ⟨e, rfl⟩ := hacts a ha
    exact ⟨nofun, nofun⟩
  let terminal := fresh [] (Play.exitWord context.settings) lines inputEnded
  have hplaced (i : TaskId) : (Play.start context messages lines inputEnded).world.task? i =
      List.find? (·.id == i) [⟨0, .own (.session (.unstarted .session)), false⟩,
        ⟨1, .own (.terminal terminal), false⟩] := by
    let sent : World := messages.foldl Schedule.send w
    change List.find? (·.id == i) (sent.tasks ++
      [⟨sent.nextTask, .own (.session (.unstarted .session)), false⟩] ++
      [⟨sent.nextTask + 1, .own (.terminal terminal), false⟩]) = _
    rw [htasks, hnext]
    rfl
  have hstart : Reached 0 1 [] { world := (Play.start context messages lines inputEnded).world
                                 acts, outside := acts } :=
    .start hbus (fun id (_ : id ∈ terminal.holds) => hpublish id) (hplaced 0) (hplaced 1)
  refine ⟨acts, acts, hstart, fun hclose => ?_⟩
  obtain ⟨e, he⟩ := hacts _ hclose
  cases he

/-! ## A whole session -/

def hello : Outgoing := { data := .text "hello" }

/-- A message has been sent, nothing has been entered, and the input has ended. -/
def opening : World := (Play.start {} [hello] [] true).world

def later (turns : Nat) : World := Nat.repeat (fun w : World => w.step program) turns opening

/-- The request of the session, which it makes in its second turn. -/
def asked : Message := (later 1).stamp (.lineRequest false)

/-- What the terminal prints: the message, and a prompt at which the input ends. -/
def shown : List Print :=
  [.message (Schedule.stamp ({ shared := {} } : World) hello), .prompt false, .lineEnd]

/-- The terminal when it has printed so much of it. -/
def showing (n : Nat) : Terminal :=
  { output := 0, requests := 1, exits := 2, exitWord := "q", inputEnded := true
    printed := shown.take n }

def prompted : Prompted := { request := asked, printed := shown.take 1 }

/-- The session has asked for a line, and everything has been handed out. -/
theorem comes_handed : Comes 0 1 [] (later 7) [] := by
  have hstart : Comes 0 1 [] opening [] := comes_start {} [hello] [] true
  have hstarted : Comes 0 1 [] (later 1) [] := hstart.session rfl rfl
  have hasked : Comes 0 1 [] (later 2) [] := hstarted.session rfl rfl
  have hwatched : Comes 0 1 [] (later 3) [] := hasked.terminal rfl rfl
  have hmessage : Comes 0 1 [] (later 4) [] := hwatched.dispatcher rfl rfl
  have hrequest : Comes 0 1 [] (later 5) [] := hmessage.dispatcher rfl rfl
  have hidle : Comes 0 1 [] (later 6) [] := hrequest.dispatcher rfl rfl
  refine hidle.responder (i := 3) (by decide) (by decide) rfl rfl fun t ⟨c, ht⟩ => ?_
  have hplaced : Stands (later 6) 1 (.terminal (showing 0)) := rfl
  cases hplaced.symm.trans ht
  decide

/-- The terminal has printed the message and the prompt and has replied, and the reply has been
handed out. -/
theorem comes_replied : Comes 0 1 [] (later 13) [prompted] := by
  have hprinted : Comes 0 1 [] (later 8) [] := comes_handed.terminal (t := showing 0) rfl rfl
  have hprompted : Comes 0 1 [] (later 9) [prompted] :=
    hprinted.terminal (t := showing 1) rfl rfl
  have hreplied : Comes 0 1 [] (later 10) [prompted] :=
    hprompted.terminal (t := { showing 2 with pending := some asked }) rfl rfl
  have hwatched : Comes 0 1 [] (later 11) [prompted] :=
    hreplied.terminal (t := showing 3) rfl rfl
  have hhanded : Comes 0 1 [] (later 12) [prompted] := hwatched.dispatcher rfl rfl
  exact hhanded.dispatcher rfl rfl

/-- The session has announced its end, and the terminal has ended. -/
theorem comes_ended : Comes 0 1 [] (later 19) [prompted] := by
  have hleaves : Comes 0 1 [] (later 14) [prompted] := comes_replied.session rfl rfl
  have hdismissed : Comes 0 1 [] (later 15) [prompted] := by
    refine hleaves.cancelled (i := 3) (by decide) (by decide) rfl rfl fun t ⟨c, ht⟩ => ?_
    have hplaced : Stands (later 14) 1 (.terminal (showing 3)) := rfl
    cases hplaced.symm.trans ht
    decide
  have hannounced : Comes 0 1 [] (later 16) [prompted] := hdismissed.session rfl rfl
  have hhanded : Comes 0 1 [] (later 17) [prompted] := hannounced.dispatcher rfl rfl
  have hidle : Comes 0 1 [] (later 18) [prompted] := hhanded.dispatcher rfl rfl
  exact hidle.terminal (t := showing 3) rfl rfl

theorem printed_in_order_hello : ∃ x t, Reached 0 1 [] x ∧ Placed x.world 1 t ∧
    t.watch = .ended none ∧ t.printed = shown ∧ x.prompts = [prompted] ∧
    Covered (conversation t.printed) (published [] x) ∧
    prompted.Timely [] t.printed (published [] x) := by
  obtain ⟨acts, outside, hx, hopen⟩ := comes_ended
  have ht : Placed (later 19) 1 { showing 3 with watch := .ended none } := ⟨false, rfl⟩
  obtain ⟨-, -, hearly⟩ := printed_in_order hx ht
  have hinorder := hearly (.first nofun)
  refine ⟨_, _, hx, ht, rfl, rfl, rfl, ?_, hinorder.prompts [] prompted [] rfl⟩
  rcases hinorder.ended none rfl with hclosed | hcovered | ⟨hfault, -⟩
  · exact absurd hclosed hopen
  · exact hcovered
  · cases hfault

end
end Showing
end Parley
