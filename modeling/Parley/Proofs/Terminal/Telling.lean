import Parley.Proofs.Terminal.Showing

/-!
# What the printed text tells

`Showing.Tells` is what holds of a terminal and of what it has printed: it is the conversation from
its start, every prompt came when all that precedes the request had been printed
(`Prompted.Timely`), and every prompt is for the request that had been taken last (`Showing.Asked`).
While the terminal runs, it has the account of its mailboxes (`Showing.Mail`). Acts of others
(`Running.others`), turns of the session (`Running.session_turn`) and turns of the terminal
(`Tells.moves`) keep all this.
-/

set_option autoImplicit false

namespace Parley

open Exchange (Stands)

/-- The prompt came next after what had been printed by then. That is all of the conversation that
comes before the request among `es`, and the request is the one after the earlier ones. -/
structure Prompted.Timely (p : Prompted) (earlier : List Prompted) (printed : List Print)
    (es : List (Event Message)) : Prop where
  prompt : p.printed ++ [.prompt (Terminal.isPlain p.request)] <+: printed
  behind : Event.Behind Channel.default (Showing.conversation p.printed) (Showing.requests earlier)
    ⟨Channel.inputRequest, p.request⟩ es

theorem Prompted.Timely.mono {p : Prompted} {earlier : List Prompted}
    {printed printed' : List Print} {es es' : List (Event Message)}
    (h : p.Timely earlier printed es) (hp : printed <+: printed') (hes : es <+: es') :
    p.Timely earlier printed' es' :=
  ⟨h.prompt.trans hp, h.behind.mono List.prefix_rfl hes⟩

namespace Showing

/-! ## Prompts -/

/-- What stands behind `ps` was printed when one of the requests had been taken, and before the next
one was. -/
def During (ps : List Print) (p : Print) (prompts : List Prompted) : Prop :=
  ∃ earlier q later, prompts = earlier ++ q :: later ∧ q.printed <+: ps ∧
    ∀ next ∈ later.head?, ps ++ [p] <+: next.printed

/-- Every prompt was printed for a request that had been taken. -/
def Asked (printed : List Print) (prompts : List Prompted) : Prop :=
  ∀ ps p qs, printed = ps ++ p :: qs → p.isPrompt = true → During ps p prompts

section
variable {ps printed new : List Print} {p : Print} {prompts : List Prompted} {q : Prompted}

theorem During.of_last (h : prompts.getLast? = some q) (hq : q.printed <+: ps) :
    During ps p prompts := by
  obtain ⟨earlier, rfl⟩ := List.getLast?_eq_some_iff.1 h
  exact ⟨earlier, q, [], rfl, hq, nofun⟩

theorem During.concat (h : During ps p prompts) (hq : ps ++ [p] <+: q.printed) :
    During ps p (prompts ++ [q]) := by
  obtain ⟨earlier, r, later, rfl, hr, hnext⟩ := h
  refine ⟨earlier, r, later ++ [q], by simp, hr, fun next hn => ?_⟩
  cases later with
  | nil => exact Option.some.inj hn ▸ hq
  | cons first later => exact hnext next hn

theorem Asked.append (h : Asked printed prompts)
    (hnew : ∀ p ∈ new, p.isPrompt = true → ∀ ps, printed <+: ps → During ps p prompts) :
    Asked (printed ++ new) prompts := by
  intro ps p qs hsplit hprompt
  rcases List.append_eq_append_iff.1 hsplit with ⟨as, rfl, rfl⟩ | ⟨bs, rfl, hrest⟩
  · exact hnew p (List.mem_append_right _ List.mem_cons_self) hprompt _ (List.prefix_append _ _)
  · cases bs with
    | nil =>
      obtain rfl : p :: qs = new := hrest
      exact hnew p List.mem_cons_self hprompt ps (by simp)
    | cons x bs =>
      obtain ⟨rfl, -⟩ := List.cons.inj hrest
      exact h ps p bs rfl hprompt

/-- The next request is taken when all this has been printed. -/
theorem Asked.concat (h : Asked printed prompts) (hq : q.printed = printed) :
    Asked printed (prompts ++ [q]) := fun ps p qs hsplit hprompt =>
  (h ps p qs hsplit hprompt).concat ⟨qs, by rw [hq, hsplit]; simp⟩

end

/-! ## The invariant -/

/-- What holds of the session where it stands: it holds nothing that is the terminal's, it has
announced its end when it flushes, and the end has been handed out when it disconnects. -/
structure Sits (before : List (Bus.Act Message)) (x : Showing) (stage : Stage) : Prop where
  inLoop : stage.InLoop
  holds : ∀ i ∈ stage.holds, (attached before).nextId ≤ i
  flushing : ∀ outcome, stage = .flushing outcome →
    ∃ e ∈ coming before x, e.channel = Channel.sessionExit
  disconnecting : ∀ task outcome, stage = .disconnecting task outcome →
    ∃ e ∈ heard before x, e.channel = Channel.sessionExit

structure Running (s : TaskId) (before : List (Bus.Act Message)) (x : Showing) (t : Terminal) :
    Prop where
  mail : ∃ out req ext, Mail before x t out req ext
  own : ∀ id ∈ t.own, (attached before).nextId ≤ id ∧ ∃ request, x.world.bus.Granted id
    (.channel (Channel.reply Channel.completionRequest request))
  session : ∀ stage, Stands x.world s (.session stage) → Sits before x stage

/-- What the terminal has printed tells of what has been published. -/
structure Tells (s : TaskId) (before : List (Bus.Act Message)) (x : Showing) (t : Terminal) :
    Prop where
  listens : Listens before t
  printed : conversation t.printed <+: Event.on Channel.default (coming before x)
  prompts : ∀ earlier p later, x.prompts = earlier ++ p :: later →
    p.Timely earlier t.printed (coming before x)
  asked : Asked t.printed x.prompts
  opened : ∀ request, t.open? = some request → x.prompts ≠ []
  running : t.isEnded = false → Running s before x t
  ended : ∀ fault, t.watch = .ended fault → .closeAll ∈ x.outside ∨
    Covered (conversation t.printed) (coming before x) ∨ fault.isSome ∧ Garbled before x

/-- A turn of the session or of the terminal; neither hands anything out. -/
structure Turn (before : List (Bus.Act Message)) (x y : Showing) : Prop where
  bus : x.world.bus = (attached before).run x.acts
  acts : ∃ acts, y.acts = x.acts ++ acts ∧ y.world.bus = x.world.bus.run acts ∧ .dispatch ∉ acts
  outside : y.outside = x.outside

section
variable {s d : TaskId} {before : List (Bus.Act Message)} {x y : Showing} {t t' : Terminal}

theorem agrees_of_run (h : x.world.bus = (attached before).run x.acts) : x.world.bus.Agrees :=
  h ▸ (agrees_attached before).run x.acts

theorem run_acts {acts : List (Bus.Act Message)} (h : x.world.bus = (attached before).run x.acts)
    (hacts : y.acts = x.acts ++ acts) (hbus : y.world.bus = x.world.bus.run acts) :
    y.world.bus = (attached before).run y.acts := by
  rw [hbus, hacts, Bus.run_append, h]

namespace Turn

theorem coming (h : Turn before x y) : coming before x <+: coming before y := by
  obtain ⟨acts, hacts, -, -⟩ := h.acts
  exact coming_of_acts hacts

theorem heard (h : Turn before x y) : heard before y = heard before x := by
  obtain ⟨acts, hacts, -, hnone⟩ := h.acts
  exact heard_of_no_dispatch hacts h.bus hnone

theorem next (h : Turn before x y) : y.world.bus = (attached before).run y.acts := by
  obtain ⟨acts, hacts, hbus, -⟩ := h.acts
  exact run_acts h.bus hacts hbus

theorem counted (h : Turn before x y) : x.world.bus.Counted := by
  rw [h.bus, attached, ← Bus.run_append]
  exact Bus.counted_run _

theorem nextId (h : Turn before x y) : (attached before).nextId ≤ x.world.bus.nextId := by
  rw [h.bus]
  exact (agrees_attached before).nextId_run _

end Turn

theorem Sits.mono {stage : Stage} (h : Sits before x stage)
    (hcoming : coming before x <+: coming before y) (hheard : heard before x <+: heard before y) :
    Sits before y stage where
  inLoop := h.inLoop
  holds := h.holds
  flushing outcome ho := (h.flushing outcome ho).imp fun _ he => ⟨hcoming.subset he.1, he.2⟩
  disconnecting task outcome ho :=
    (h.disconnecting task outcome ho).imp fun _ he => ⟨hheard.subset he.1, he.2⟩

theorem Running.own_run (h : Running s before x t)
    (hbus : x.world.bus = (attached before).run x.acts) {acts : List (Bus.Act Message)}
    (hy : y.world.bus = x.world.bus.run acts) {id : SubscriptionId} (hid : id ∈ t.own) :
    (attached before).nextId ≤ id ∧ ∃ request, y.world.bus.Granted id
      (.channel (Channel.reply Channel.completionRequest request)) := by
  obtain ⟨hle, request, hgranted⟩ := h.own id hid
  exact ⟨hle, request, hy ▸ (agrees_of_run hbus).granted_run hgranted acts⟩

/-! ## Acts of others -/

/-- The showing after acts of others on the bus. -/
def after (x : Showing) (acts : List (Bus.Act Message)) : Showing :=
  { x with
    world := { x.world with bus := x.world.bus.run acts }
    acts := x.acts ++ acts
    outside := x.outside ++ acts }

theorem after_cons (x : Showing) (a : Bus.Act Message) (acts : List (Bus.Act Message)) :
    x.after (a :: acts) = (x.after [a]).after acts := by
  simp [after]

theorem Running.after_act (h : Running s before x t) (hl : Listens before t)
    (hbus : x.world.bus = (attached before).run x.acts) {a : Bus.Act Message}
    (ha : ∀ id, id = t.output ∨ id = t.requests ∨ id = t.exits → a.Avoids id) :
    Running s before (x.after [a]) t := by
  obtain ⟨out, req, ext, hmail⟩ := h.mail
  have hcoming : coming before x <+: coming before (x.after [a]) := coming_of_acts rfl
  have hheard : heard before (x.after [a]) = heard before x ++ x.world.bus.handsOut a := by
    rw [heard_append rfl hbus, Bus.handed, Bus.handed, List.append_nil]
  refine ⟨?_, fun _ => h.own_run (y := x.after [a]) hbus rfl,
    fun stage hs => (h.session stage hs).mono hcoming ?_⟩
  · refine hmail.act hl hbus ha rfl hheard hcoming rfl (fun x hx => ?_) fun hclose => .inl ?_
    · exact List.mem_append_left _ hx
    · exact List.mem_append_right _ (hclose ▸ List.mem_singleton_self _)
  · rw [hheard]
    exact List.prefix_append _ _

/-- **What others do** on the bus, as long as they take nothing out of the terminal's mailboxes. -/
theorem Running.after (h : Running s before x t) (hl : Listens before t)
    (hbus : x.world.bus = (attached before).run x.acts) {acts : List (Bus.Act Message)}
    (ha : ∀ a ∈ acts, ∀ id, id = t.output ∨ id = t.requests ∨ id = t.exits → a.Avoids id) :
    Running s before (x.after acts) t := by
  induction acts generalizing x with
  | nil =>
    rw [show x.after [] = x by simp [Showing.after]]
    exact h
  | cons a acts ih =>
    rw [after_cons]
    have hnext : (x.after [a]).world.bus = (attached before).run (x.after [a]).acts :=
      run_acts hbus rfl rfl
    exact ih (h.after_act hl hbus (ha a List.mem_cons_self)) hnext
      fun x hx => ha x (List.mem_cons_of_mem _ hx)

/-- **What others do**, in whatever world it leads to. -/
theorem Running.others (h : Running s before x t) (hl : Listens before t)
    (hbus : x.world.bus = (attached before).run x.acts) {w : World} {acts : List (Bus.Act Message)}
    (hb : w.bus = x.world.bus.run acts)
    (ha : ∀ a ∈ acts, ∀ id, id = t.output ∨ id = t.requests ∨ id = t.exits → a.Avoids id)
    (hs : ∀ stage, Stands w s (.session stage) → Stands x.world s (.session stage)) :
    Running s before
      { x with world := w, acts := x.acts ++ acts, outside := x.outside ++ acts } t := by
  obtain ⟨hmail, hown, hsession⟩ := h.after hl hbus ha
  obtain ⟨out, req, ext, hmail⟩ := hmail
  refine ⟨⟨out, req, ext, ?_⟩, fun id hid => ?_, fun stage hstage => ?_⟩
  · exact hmail.frame (.refl t) rfl List.prefix_rfl rfl rfl fun id _ =>
      congrArg (Bus.subscription? · id) hb
  · exact hb ▸ hown id hid
  · obtain ⟨hloop, hholds, hflushing, hdisconnecting⟩ := hsession stage (hs stage hstage)
    exact ⟨hloop, hholds, hflushing, hdisconnecting⟩

/-! ## Turns of the session -/

/-- When a session finds nothing pending after the announcement of its end, the end has been handed
out. -/
theorem Sits.heard_exit {stage : Stage} (h : Sits before x stage)
    {out req ext : List (Delivery Message)} (hmail : Mail before x t out req ext)
    (hl : Listens before t) (hturn : Turn before x y) {w : World} (hw : w.bus = x.world.bus)
    (hcleared : stage.Cleared w) : ∃ e ∈ heard before x, e.channel = Channel.sessionExit := by
  cases stage with
  | flushing outcome =>
    obtain ⟨e, he, hchannel⟩ := h.flushing outcome rfl
    have hidle : x.world.bus.isIdle = true := hw ▸ hcleared
    rw [hmail.coming hl hturn.bus, hturn.counted.queue_eq_nil hidle, List.append_nil] at he
    exact ⟨e, List.mem_of_mem_filter he, hchannel⟩
  | disconnecting task outcome => exact h.disconnecting task outcome rfl
  | _ => exact hcleared.elim

theorem watched_of_mail {stage : Stage} (h : Sits before x stage)
    {out req ext : List (Delivery Message)} (hmail : Mail before x t out req ext)
    (hl : Listens before t) (hturn : Turn before x y) {w : World} (hw : w.bus = x.world.bus) :
    Stage.Watched stage.holds w where
  agrees := hw ▸ agrees_of_run hturn.bus
  counted := hw ▸ hturn.counted
  listener := by
    refine ⟨t.exits, _, hw ▸ hmail.exits.mailbox, rfl, fun hid => ?_⟩
    exact absurd (hl.lt (.inr (.inr rfl))) (Nat.not_lt.2 (h.holds _ hid))

/-- **A turn of the session** keeps the terminal's account. -/
theorem Running.session_turn (h : Running s before x t) (hl : Listens before t)
    (hturn : Turn before x y) {stage : Stage} (hs : Stands x.world s (.session stage)) {w : World}
    (hw : w.bus = x.world.bus) (hy : y.world.bus = (stage.turn w).1.bus)
    (hprompts : y.prompts = x.prompts)
    (hstage : ∀ stage', Stands y.world s (.session stage') → stage' = (stage.turn w).2) :
    Running s before y t := by
  obtain ⟨out, req, ext, hmail⟩ := h.mail
  have hsits := h.session stage hs
  have hnext : (attached before).nextId ≤ w.bus.nextId := hw ▸ hturn.nextId
  have hexit := fun hcleared => hsits.heard_exit hmail hl hturn hw hcleared
  have hleads := Stage.leads_turn hsits.inLoop (watched_of_mail hsits hmail hl hturn hw)
  -- the session minds its own mailboxes, or it closes the bus when its end has been handed out
  have hmail' : ∃ out' req' ext', Mail before y t out' req' ext' := by
    rcases hleads.bus with hminds | ⟨hclosed, hcleared, -⟩
    · refine ⟨out, req, ext, hmail.frame (.refl t) hturn.heard hturn.coming hprompts hturn.outside
        fun id hid => ?_⟩
      have hlt := hl.lt hid
      rw [hy, ← hw]
      refine hminds.mailbox id (Nat.lt_of_lt_of_le hlt hnext) fun hmem => ?_
      exact absurd hlt (Nat.not_lt.2 (hsits.holds id hmem))
    · refine hmail.act (a := .closeAll) hl hturn.bus (fun _ _ => ⟨nofun, nofun⟩) ?_ ?_ hturn.coming
        hprompts (fun a ha => hturn.outside ▸ ha) fun _ => .inr (hexit hcleared)
      · rw [hy, hclosed, hw]
        rfl
      · rw [hturn.heard]
        exact (List.append_nil _).symm
  obtain ⟨acts, hacts, hbus, hnone⟩ := hturn.acts
  refine ⟨hmail', fun _ => h.own_run hturn.bus hbus, fun stage' hstands => ?_⟩
  obtain rfl := hstage stage' hstands
  refine ⟨Stage.inLoop_turn hsits.inLoop w, fun i hi => ?_, fun outcome ho => ?_,
    fun task outcome ho => hturn.heard.symm ▸ hexit (hleads.disconnecting task outcome ho)⟩
  · rcases hleads.bus with hminds | ⟨-, -, hholds⟩
    · rcases hminds.fresh i hi with hold | hnew
      · exact hsits.holds i hold
      · exact Nat.le_trans hnext hnew
    · rw [hholds] at hi
      exact absurd hi List.not_mem_nil
  · rcases hleads.flushing outcome ho with ⟨hsame, -⟩ | ⟨e, he, hchannel⟩
    · exact (hsits.mono hturn.coming (hturn.heard ▸ List.prefix_rfl)).flushing outcome hsame
    · obtain ⟨out', req', ext', hmail'⟩ := hmail'
      refine ⟨e, ?_, hchannel⟩
      rw [hmail'.coming hl hturn.next]
      refine List.mem_filter.2 ⟨List.mem_append_right _ (hy ▸ he), ?_⟩
      rw [hchannel]
      decide

/-! ## Turns of the terminal -/

theorem eq_of_channel {e : Event Message} {c : String} (h : e.channel = c) :
    ⟨c, e.payload⟩ = e := by
  subst h
  rfl

section
variable (h : Running s before x t) (hl : Listens before t) (hturn : Turn before x y) {w : World}
  (hw : w.bus = x.world.bus)
  (hs : ∀ stage, Stands y.world s (.session stage) → Stands x.world s (.session stage))
include h hl hturn hw

include hs in
/-- The terminal goes on without a look at its three mailboxes. -/
theorem Running.goes {w' : World} (hgoes : t.Goes w w' t') (hy : y.world.bus = w'.bus)
    (hprompts : y.prompts = x.prompts) : Running s before y t' := by
  obtain ⟨out, req, ext, hmail⟩ := h.mail
  obtain ⟨acts, hacts, hbus, hnone⟩ := hturn.acts
  have hagrees : w.bus.Agrees := hw ▸ agrees_of_run hturn.bus
  have hnext : (attached before).nextId ≤ w.bus.nextId := hw ▸ hturn.nextId
  have hminds := hgoes.handles.bus.minds hagrees
  refine ⟨⟨out, req, ext, ?_⟩, fun id hid => ?_, fun stage hstage => ?_⟩
  · refine hmail.frame hgoes.continues hturn.heard hturn.coming hprompts hturn.outside
      fun id hid => ?_
    have hlt := hl.lt hid
    rw [hy, ← hw]
    refine hminds.mailbox id (Nat.lt_of_lt_of_le hlt hnext) fun hmem => ?_
    exact absurd hlt (Nat.not_lt.2 (h.own id hmem).1)
  · rcases hgoes.granted hagrees id hid with hold | hgranted
    · exact h.own_run hturn.bus hbus hold
    · refine ⟨?_, hy ▸ hgranted⟩
      rcases hminds.fresh id hid with hold | hnew
      · exact (h.own id hold).1
      · exact Nat.le_trans hnext hnew
  · exact (h.session stage (hs stage hstage)).mono hturn.coming (hturn.heard ▸ List.prefix_rfl)

include hs in
theorem Running.prints {e : Event Message} (he : w.peek t.output = .event e)
    (hy : y.world.bus = (w.taken t.output).bus)
    (hprompts : y.prompts = x.prompts) : Running s before y (t.print (.message e.payload)) := by
  obtain ⟨out, req, ext, hmail⟩ := h.mail
  obtain ⟨rest, rfl⟩ := hmail.output.of_event (e := e) (by rw [← hw]; exact he)
  obtain ⟨hchannel, hread⟩ := hmail.output.read
  have hbus : y.world.bus = (x.world.bus.read t.output).2 := by rw [hy, ← hw]; rfl
  have hother : ∀ {id : SubscriptionId}, t.output ≠ id →
      y.world.bus.subscription? id = x.world.bus.subscription? id := fun hne =>
    hbus ▸ Bus.subscription?_read_of_ne x.world.bus hne
  have hshown : conversation (t.print (.message e.payload)).printed =
      conversation t.printed ++ [e] := by
    rw [Terminal.print, conversation_append]
    exact congrArg (_ ++ [·]) (eq_of_channel hchannel)
  obtain ⟨acts, -, hacts, -⟩ := hturn.acts
  refine ⟨⟨rest, req, ext, ?_, ?_, ?_, fun hmark => ?_, fun hmark => ?_⟩,
    fun id hid => h.own_run hturn.bus hacts hid, fun stage hstage => ?_⟩
  · rw [hshown, hturn.heard, hbus]
    exact hread
  · rw [hprompts, hturn.heard]
    exact hmail.requests.congr (hother (Listens.ne (by decide) hl.output hl.requests))
  · rw [hturn.heard]
    exact hmail.exits.congr (hother (Listens.ne (by decide) hl.output hl.exits))
  · exact (List.mem_cons.1 (hmail.marks hmark)).resolve_left nofun
  · rw [hturn.outside, hshown]
    refine (hmail.ended (List.mem_cons_of_mem _ hmark)).imp_right fun hcovered => ?_
    rw [List.append_assoc]
    exact hcovered.mono List.prefix_rfl hturn.coming
  · exact (h.session stage (hs stage hstage)).mono hturn.coming (hturn.heard ▸ List.prefix_rfl)

include hs in
theorem Running.takes {e : Event Message} (he : w.peek t.requests = .event e)
    (hy : y.world.bus = (w.taken t.requests).bus) {printed : List Print}
    (hprompts : y.prompts = x.prompts ++ [{ request := e.payload, printed }]) :
    Running s before y ({ t with pending := some e.payload, responding := false }.print
      (.prompt (Terminal.isPlain e.payload))) := by
  obtain ⟨out, req, ext, hmail⟩ := h.mail
  obtain ⟨rest, rfl⟩ := hmail.requests.of_event (e := e) (by rw [← hw]; exact he)
  obtain ⟨hchannel, hread⟩ := hmail.requests.read
  have hbus : y.world.bus = (x.world.bus.read t.requests).2 := by rw [hy, ← hw]; rfl
  have hother : ∀ {id : SubscriptionId}, t.requests ≠ id →
      y.world.bus.subscription? id = x.world.bus.subscription? id := fun hne =>
    hbus ▸ Bus.subscription?_read_of_ne x.world.bus hne
  have hshown : conversation (t.printed ++ [.prompt (Terminal.isPlain e.payload)]) =
      conversation t.printed := by
    rw [conversation_append]
    exact List.append_nil _
  have hrequests : requests y.prompts = requests x.prompts ++ [e] := by
    rw [hprompts, requests, List.map_append, requests]
    exact congrArg (_ ++ [·]) (eq_of_channel hchannel)
  obtain ⟨acts, -, hacts, -⟩ := hturn.acts
  refine ⟨⟨out, rest, ext, ?_, ?_, ?_, fun hmark => hmail.marks ?_, fun hmark => ?_⟩,
    fun id hid => h.own_run hturn.bus hacts hid, fun stage hstage => ?_⟩
  · have htracks := hmail.output.congr (hother (Listens.ne (by decide) hl.requests hl.output))
    rw [← hshown, ← hturn.heard] at htracks
    exact htracks
  · rw [hrequests, hturn.heard, hbus]
    exact hread
  · rw [hturn.heard]
    exact hmail.exits.congr (hother (Listens.ne (by decide) hl.requests hl.exits))
  · exact hmark.imp_left (List.mem_cons_of_mem _)
  · have hended := (hmail.ended hmark).imp_right fun hcovered =>
      hcovered.mono List.prefix_rfl hturn.coming
    rw [← hshown, ← hturn.outside] at hended
    exact hended
  · exact (h.session stage (hs stage hstage)).mono hturn.coming (hturn.heard ▸ List.prefix_rfl)

/-- When the terminal finds nothing to print, it has printed what was published before the request
that lies in front. -/
theorem Running.behind {e : Event Message} (ho : w.peek t.output = .waiting)
    (he : w.peek t.requests = .event e) :
    Event.Behind Channel.default (conversation t.printed) (requests x.prompts)
      ⟨Channel.inputRequest, e.payload⟩ (coming before x) := by
  obtain ⟨out, req, ext, hmail⟩ := h.mail
  obtain ⟨rest, rfl⟩ := hmail.requests.of_event (e := e) (by rw [← hw]; exact he)
  obtain rfl := hmail.output.of_waiting (by rw [← hw]; exact ho)
  have hchannel := hmail.requests.read.1
  have hown := hmail.requests.account
  have hshown := hmail.output.account
  rw [← Event.on_filter_contains mem_channels_request, ← hchannel] at hown
  rw [← Event.on_filter_contains mem_channels_default, Delivery.events, List.filterMap_nil,
    List.append_nil] at hshown
  -- its mailbox is empty, so it has printed all that has been handed out
  have hall : Event.on Channel.default
      ((heard before x).filter (Terminal.channels.contains ·.channel)) <+:
        conversation t.printed := ⟨[], (List.append_nil _).trans hshown.symm⟩
  have hbehind := Event.behind_of_on hown.symm hall
  rw [eq_of_channel hchannel]
  exact hbehind.mono List.prefix_rfl (hmail.heard_coming hl hturn.bus)

/-- **When the terminal ends**, it has printed what came before the end of the session, unless
others have closed the bus or a reply to a request for completions was none. -/
theorem Running.ends {fault : Option String} (hends : t.Ends w fault) :
    .closeAll ∈ x.outside ∨ Covered (conversation t.printed) (coming before x) ∨
      fault.isSome ∧ Garbled before x := by
  obtain ⟨out, req, ext, hmail⟩ := h.mail
  have hmarked : ∀ {rest}, out = .closed :: rest → .closeAll ∈ x.outside ∨
      Covered (conversation t.printed) (coming before x) := by
    rintro rest rfl
    have hended := hmail.ended List.mem_cons_self
    rwa [Delivery.ahead, List.append_nil] at hended
  cases hends with
  | output _ ho =>
    obtain ⟨rest, hout⟩ := hmail.output.of_closed (by rw [← hw]; exact ho)
    exact (hmarked hout).imp_right .inl
  | exits _ ho hx =>
    obtain rfl := hmail.output.of_waiting (by rw [← hw]; exact ho)
    cases ext with
    | nil =>
      refine absurd ?_ hx
      rw [Schedule.peek, hw]
      exact hmail.exits.reading
    | cons d rest =>
      cases d with
      | closed => exact absurd (hmail.marks (.inr List.mem_cons_self)) List.not_mem_nil
      | event e =>
        have hmem : e ∈ Event.on Channel.sessionExit (heard before x) := by
          rw [← hmail.exits.account]
          exact List.mem_cons_self
        have hcovered := hmail.covered hl hturn.bus
          ⟨e, List.mem_of_mem_filter hmem, eq_of_beq (List.mem_filter.1 hmem).2⟩
        rw [Delivery.events, List.filterMap_nil, List.append_nil] at hcovered
        exact .inr (.inl hcovered)
  | requests _ ho hr =>
    -- a mark among the requests would lie behind what is printed, too, and nothing lies there
    obtain rfl := hmail.output.of_waiting (by rw [← hw]; exact ho)
    obtain ⟨rest, rfl⟩ := hmail.requests.of_closed (by rw [← hw]; exact hr)
    exact absurd (hmail.marks (.inl List.mem_cons_self)) List.not_mem_nil
  | @fault request line id deadline e hwatch he hnone text =>
    have hid : id ∈ t.own := by
      rw [Terminal.own, hwatch]
      exact List.mem_singleton_self id
    obtain ⟨-, asked, hgranted⟩ := h.own id hid
    have hrun : x.world.bus =
        Bus.run {} (before ++ Bus.listening Terminal.channels ++ x.acts) := by
      rw [hturn.bus, attached, ← Bus.run_append]
    have hread : (x.world.bus.read id).1 = .event e := by rw [← hw]; exact he
    have haddressed : x.world.bus.Addressed := hrun ▸ Bus.addressed_run _
    have hcarries : x.world.bus.Carries (· ∈ published before x) := by
      rw [hrun]
      refine Bus.agrees_empty.carries_run (Bus.carries_empty _) fun e he => ?_
      rwa [Bus.published_append, Bus.published_append, Bus.published_listening,
        List.append_nil] at he
    refine .inr (.inr ⟨rfl, e, Bus.carries_of_read hcarries hread, ⟨asked, ?_⟩, hnone⟩)
    exact (eq_of_beq (Bus.covers_of_read haddressed hgranted hread)).symm

end

/-! ## What the terminal has printed -/

/-- What the terminal holds has been given to it. -/
theorem Tells.old (h : Tells s before x t) (hbus : x.world.bus = (attached before).run x.acts)
    {id : SubscriptionId} (hid : id ∈ t.holds) : id < x.world.bus.nextId := by
  have hnext : (attached before).nextId ≤ x.world.bus.nextId :=
    hbus ▸ (agrees_attached before).nextId_run x.acts
  rcases Terminal.own_of_mem hid with ⟨hruns, hown⟩ | hlistener
  · obtain ⟨-, request, hgranted⟩ := (h.running hruns).own id hown
    exact hgranted.old
  · exact Nat.lt_of_lt_of_le (h.listens.lt hlistener) hnext

theorem Running.shown (h : Running s before x t) (hl : Listens before t)
    (hbus : x.world.bus = (attached before).run x.acts) :
    conversation t.printed <+: Event.on Channel.default (coming before x) := by
  obtain ⟨out, req, ext, hmail⟩ := h.mail
  exact hmail.printed hl hbus

theorem ended_mono {acts : List (Bus.Act Message)}
    (hacts : y.acts = x.acts ++ acts) (houtside : ∀ a ∈ x.outside, a ∈ y.outside)
    {fault : Option String} (hended : .closeAll ∈ x.outside ∨
      Covered (conversation t.printed) (coming before x) ∨ fault.isSome ∧ Garbled before x) :
    .closeAll ∈ y.outside ∨ Covered (conversation t.printed) (coming before y) ∨
      fault.isSome ∧ Garbled before y :=
  hended.imp (houtside _) (.imp (·.mono List.prefix_rfl (coming_of_acts hacts))
    (.imp_right (·.mono hacts)))

/-- The terminal goes on, or ends, without a further message or request. -/
theorem Tells.continue (h : Tells s before x t) (ht : t.Continues t')
    {acts : List (Bus.Act Message)} (hacts : y.acts = x.acts ++ acts)
    (hprompts : y.prompts = x.prompts)
    (hrunning : t'.isEnded = false → Running s before y t')
    (hended : ∀ fault, t'.watch = .ended fault → .closeAll ∈ y.outside ∨
      Covered (conversation t'.printed) (coming before y) ∨ fault.isSome ∧ Garbled before y) :
    Tells s before y t' := by
  have hcoming : coming before x <+: coming before y := coming_of_acts hacts
  obtain ⟨ps, hps, haside⟩ := ht.printed
  refine ⟨⟨?_, ?_, ?_⟩, ?_, fun earlier p later hsplit => ?_, ?_, fun request hr => ?_, hrunning,
    hended⟩
  · exact ht.output ▸ h.listens.output
  · exact ht.requests ▸ h.listens.requests
  · exact ht.exits ▸ h.listens.exits
  · rw [conversation, ht.messages]
    exact h.printed.trans (hcoming.filter _)
  · refine (h.prompts earlier p later (hprompts ▸ hsplit)).mono ?_ hcoming
    exact hps ▸ List.prefix_append _ _
  · rw [hps, hprompts]
    refine h.asked.append fun p hp hprompt qs hqs => ?_
    obtain ⟨request, hopen⟩ := (haside p hp).prompt hprompt
    -- the open request is the one that was taken last
    have hlast := List.getLast?_eq_some_getLast (h.opened request hopen)
    have hsplit := List.dropLast_append_getLast (h.opened request hopen)
    refine .of_last hlast (List.IsPrefix.trans ?_ hqs)
    exact (List.prefix_append _ _).trans (h.prompts _ _ [] hsplit.symm).prompt
  · rw [hprompts]
    exact h.opened request (ht.opened request hr)
theorem Tells.prints (h : Tells s before x t) (hturn : Turn before x y) (hall : t.watch = .all)
    (hprompts : y.prompts = x.prompts) {m : Message}
    (hrunning : Running s before y (t.print (.message m))) :
    Tells s before y (t.print (.message m)) where
  listens := ⟨h.listens.output, h.listens.requests, h.listens.exits⟩
  printed := hrunning.shown ⟨h.listens.output, h.listens.requests, h.listens.exits⟩ hturn.next
  prompts earlier p later hsplit :=
    (h.prompts earlier p later (hprompts ▸ hsplit)).mono (List.prefix_append _ _) hturn.coming
  asked := by
    rw [hprompts]
    exact h.asked.append fun p hp hprompt => nomatch List.mem_singleton.1 hp ▸ hprompt
  opened request hr := hprompts ▸ h.opened request hr
  running _ := hrunning
  ended fault hfault := nomatch hall.symm.trans hfault

theorem Tells.takes (h : Tells s before x t) (hturn : Turn before x y) (hall : t.watch = .all)
    {request : Message} (hprompts : y.prompts = x.prompts ++ [{ request, printed := t.printed }])
    (hbehind : Event.Behind Channel.default (conversation t.printed) (requests x.prompts)
      ⟨Channel.inputRequest, request⟩ (coming before x)) {t' : Terminal}
    (ht : t' = { t with pending := some request, responding := false }.print
      (.prompt (Terminal.isPlain request))) (hrunning : Running s before y t') :
    Tells s before y t' := by
  subst ht
  have hl : Listens before t := h.listens
  refine ⟨⟨hl.output, hl.requests, hl.exits⟩,
    hrunning.shown ⟨hl.output, hl.requests, hl.exits⟩ hturn.next,
    fun earlier p later hsplit => ?_, ?_, fun r _ => ?_, fun _ => hrunning,
    fun fault hfault => nomatch hall.symm.trans hfault⟩
  · rw [hprompts] at hsplit
    rcases Course.split_concat hsplit with ⟨rfl, rfl, -⟩ | ⟨init, -, hsplit⟩
    · exact ⟨List.prefix_rfl, hbehind.mono List.prefix_rfl hturn.coming⟩
    · exact (h.prompts earlier p init hsplit).mono (List.prefix_append _ _) hturn.coming
  · rw [hprompts]
    refine (h.asked.concat rfl).append fun p hp hprompt ps hps => ?_
    exact .of_last List.getLast?_concat hps
  · rw [hprompts]
    exact List.append_ne_nil_of_right_ne_nil _ (List.cons_ne_nil _ _)

/-- **A turn of the terminal** tells of what has been published, as before. -/
theorem Tells.moves (h : Tells s before x t) (hturn : Turn before x y) {w w' : World}
    (hw : w.bus = x.world.bus) (hmoves : t.Moves w w' t') (hy : y.world.bus = w'.bus)
    (hprompts : y.prompts = x.prompts ++ (t.prompted? w).toList)
    (hs : ∀ stage, Stands y.world s (.session stage) → Stands x.world s (.session stage)) :
    Tells s before y t' := by
  obtain ⟨acts, hacts, -, -⟩ := hturn.acts
  have hsame : t.taken? w = none → y.prompts = x.prompts := fun hnone => by
    rw [hprompts, Terminal.prompted?, hnone]
    exact List.append_nil _
  cases hmoves with
  | prints hall he =>
    have hnone := hsame (by simp only [Terminal.taken?, hall, he])
    have hrunning := h.running (Terminal.isEnded_of_all hall)
    exact h.prints hturn hall hnone (hrunning.prints h.listens hturn hw hs he hy hnone)
  | @takes e hall ho hx hp he =>
    have htaken : y.prompts = x.prompts ++ [{ request := e.payload, printed := t.printed }] := by
      rw [hprompts, Terminal.prompted?, Terminal.taken?]
      simp only [hall, ho, hx, hp, he, Option.map_some, Option.toList_some]
    have hrunning := h.running (Terminal.isEnded_of_all hall)
    exact h.takes hturn hall htaken (hrunning.behind h.listens hturn hw ho he) rfl
      (hrunning.takes h.listens hturn hw hs he hy htaken)
  | @ends _ reason hends _ =>
    have hstops : t.Continues { t with watch := .ended reason } :=
      .of_printed rfl rfl rfl rfl fun _ hopen => by cases hopen
    refine h.continue hstops hacts (hsame hends.taken?) (fun hruns => ?_) fun fault hfault => ?_
    · cases hruns
    · cases hfault
      exact ended_mono hacts (fun _ ha => hturn.outside ▸ ha)
        ((h.running hends.running).ends h.listens hturn hw hends)
  | goes hruns hgoes hnone =>
    refine h.continue hgoes.continues hacts (hsame hnone) (fun _ => ?_) fun fault hfault => ?_
    · exact (h.running hruns).goes h.listens hturn hw hs hgoes hy (hsame hnone)
    · have hwatch := hgoes.watch
      rw [Terminal.isEnded, hfault] at hwatch
      cases hwatch
  | rests hended =>
    have hnone : t.taken? w = none := by
      unfold Terminal.isEnded at hended
      split at hended
      · next hwatch => simp only [Terminal.taken?, hwatch]
      · cases hended
    refine h.continue (.refl t) hacts (hsame hnone) (fun hruns => ?_) fun fault hfault => ?_
    · cases hruns.symm.trans hended
    · exact ended_mono hacts (fun _ ha => hturn.outside ▸ ha) (h.ended fault hfault)

end
end Showing
end Parley
