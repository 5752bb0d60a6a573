import Parley.Proofs.Session.Commanding
import Parley.Proofs.Terminal.Lines

/-!
# What a terminal does about requests

In a turn a terminal takes a request, replies to the one that is open, or interrupts a response; or
it does none of that (`Terminal.doing?`). What it did last decides which request is open and whether
it takes itself to be answered (`Terminal.Left`, `does_turn`), and so what it can do next: the
doings of a terminal follow one another as `Terminal.InTurn` says.
-/

set_option autoImplicit false

namespace Parley.Terminal

inductive Doing
  | takes (request : Message)
  /-- It replies, with a line that has been entered or with its exit word. -/
  | replies (r : Reply) (entered : Bool)
  | interrupts

namespace Doing

/-- The request that is open from then on. -/
def opens? : Doing → Option Message
  | takes request => some request
  | _ => none

def reply? : Doing → Option Reply
  | replies r _ => some r
  | _ => none

/-- The terminal takes the engine to answer from then on. -/
def starts : Doing → Bool
  | replies r entered => entered && startsResponse r.request r.line
  | _ => false

/-- What is published by that. -/
def event? (w : World) : Doing → Option (Event Message)
  | takes _ => none
  | replies r _ => some r.event
  | interrupts => some ⟨Channel.interrupt, w.stamp (.interrupt .client)⟩

theorem starts_of_opens {d : Doing} {request : Message} (h : d.opens? = some request) :
    d.starts = false := by
  cases d <;> first | rfl | cases h

end Doing

/-- The terminal interrupts in its turn: it finds nothing to print, no end and no request, none is
open, and the key has been pressed in a response. -/
def interrupting (t : Terminal) (w : World) : Bool :=
  match t.watch, w.peek t.output, w.peek t.exits, t.pending, w.peek t.requests with
  | .all, .waiting, .waiting, none, .waiting => t.keyPressed && t.responding
  | _, _, _, _, _ => false

/-- What the terminal does in its turn. -/
def doing? (t : Terminal) (w : World) : Option Doing :=
  match t.reply? w, t.taken? w with
  | some r, _ => some (.replies r !t.lines.isEmpty)
  | none, some request => some (.takes request)
  | none, none => if t.interrupting w then some .interrupts else none

/-! ## Where a terminal stands -/

/-- Where a terminal stands that has done this last. -/
structure Left (last : Option Doing) (t : Terminal) : Prop where
  opened : t.isEnded = false → t.open? = last.bind Doing.opens?
  pending : ∀ request, t.pending = some request → last.bind Doing.opens? = some request
  responding : t.responding = last.any Doing.starts

/-- What comes of a turn of a terminal that has done `last` before: it does what `doing?` says, and
publishes nothing else but a request for completions. -/
structure Does (last : Option Doing) (t : Terminal) (w w' : World) (t' : Terminal) : Prop where
  left : Left ((t.doing? w).or last) t'
  publishes : ∃ es, Bus.Publishes es w.bus w'.bus ∧
    (es = ((t.doing? w).bind (Doing.event? w)).toList ∨ t.doing? w = none ∧
      ∃ part, es = [⟨Channel.completionRequest, w.stamp (completionRequest part)⟩])

section
variable {last : Option Doing} {t t' : Terminal} {w w' : World}

/-- While a request is open the terminal does not take itself to be answered. -/
theorem Left.idle (h : Left last t) {request : Message} (hp : t.pending = some request) :
    t.responding = false := by
  rw [h.responding]
  obtain ⟨d, rfl, hd⟩ := Option.bind_eq_some_iff.1 (h.pending request hp)
  exact Doing.starts_of_opens hd

/-- The terminal does nothing about requests. -/
theorem does_still (h : Left last t) (hn : t.doing? w = none)
    (hopen : t'.isEnded = false → t.isEnded = false ∧ t'.open? = t.open?)
    (hpending : ∀ request, t'.pending = some request →
      t.pending = some request ∨ t.isEnded = false ∧ t.open? = some request)
    (hresponding : t'.responding = t.responding) {es : List (Event Message)}
    (hw : Bus.Publishes es w.bus w'.bus)
    (hes : es = [] ∨
      ∃ part, es = [⟨Channel.completionRequest, w.stamp (completionRequest part)⟩]) :
    Does last t w w' t' := by
  refine ⟨?_, es, hw, ?_⟩
  · rw [hn, Option.none_or]
    refine ⟨fun hruns => ?_, fun request hp => ?_, hresponding.trans h.responding⟩
    · obtain ⟨hrunning, hsame⟩ := hopen hruns
      exact hsame.trans (h.opened hrunning)
    · rcases hpending request hp with hp | ⟨hrunning, hp⟩
      · exact h.pending request hp
      · exact (h.opened hrunning).symm.trans hp
  · rw [hn]
    exact hes.imp_right fun hpart => ⟨rfl, hpart⟩

/-- It watches as before. -/
theorem does_same (h : Left last t) (hn : t.doing? w = none) (hwatch : t'.watch = t.watch)
    (hpending : t'.pending = t.pending) (hresponding : t'.responding = t.responding)
    (hw : Bus.Publishes [] w.bus w'.bus) : Does last t w w' t' := by
  refine does_still h hn (fun hruns => ?_) (fun request hp => .inl (hpending ▸ hp)) hresponding hw
    (.inl rfl)
  rw [isEnded, hwatch] at hruns
  exact ⟨hruns, by rw [open?, open?, hwatch, hpending]⟩

/-- It ends. -/
theorem does_finish (h : Left last t) (hn : t.doing? w = none) (fault : Option String)
    (id : SubscriptionId) : LeadsTo (Does last t w) (finish t fault (w.taken id)) :=
  leadsTo_wait (does_still h hn nofun (fun _ hp => .inl hp) rfl
    ((Bus.Publishes.taken w id).trans (.releaseAll _ t.holds)) (.inl rfl))

/-- It replies; `t'` has the rest of the lines, and takes itself to be answered or not. -/
theorem does_reply {request : Message} {line : String} {entered : Bool}
    (hd : t.doing? w = some (.replies (t.replyWith request w line) entered))
    (hwatch : t'.watch = .all)
    (hresponding : t'.responding = (entered && startsResponse request line)) :
    LeadsTo (Does last t w) (reply t' request line w) := by
  refine leadsTo_again ⟨?_, _, .send w (answer request line), .inl ?_⟩
  · rw [hd, Option.some_or]
    exact ⟨fun _ => open?_of_all hwatch, nofun, hresponding⟩
  · rw [hd]
    rfl

/-! ## A turn -/

variable (t w)

/-- What the terminal does with a request open, when it has nothing to print and finds no end. -/
theorem doing?_of_open (hwatch : t.watch = .all) (hout : w.peek t.output = .waiting)
    (hexit : w.peek t.exits = .waiting) {request : Message} (hp : t.pending = some request) :
    t.doing? w = (t.line? request).map fun line =>
      .replies (t.replyWith request w line) !t.lines.isEmpty := by
  simp only [doing?, reply?, taken?, interrupting, hwatch, hout, hexit, hp]
  cases t.line? request <;> rfl

theorem does_readLine (h : Left last t) (hwatch : t.watch = .all)
    (hout : w.peek t.output = .waiting) (hexit : w.peek t.exits = .waiting) {request : Message}
    (hp : t.pending = some request) : LeadsTo (Does last t w) (readLine t request w) := by
  have hdoing := doing?_of_open t w hwatch hout hexit hp
  have hidle := h.idle hp
  unfold readLine
  split
  · next line lines hlines =>
    have hline : t.line? request = entered? request line := by rw [line?, hlines]
    rw [hline, hlines] at hdoing
    unfold useLine
    split
    · next part htab =>
      have hentered : entered? request line = if isPlain request then some part else none := by
        rw [entered?, htab]
      rw [hentered] at hdoing
      cases hplain : isPlain request with
      | true =>
        rw [hplain, if_pos rfl] at hdoing
        rw [if_pos rfl]
        refine does_reply hdoing hwatch (hidle.trans ?_)
        rw [startsResponse, hplain]
        rfl
      | false =>
        rw [hplain, if_neg Bool.false_ne_true] at hdoing
        rw [if_neg Bool.false_ne_true]
        refine leadsTo_wait (does_still h hdoing (fun _ => ⟨isEnded_of_all hwatch, ?_⟩)
          (fun _ hnone => ?_) rfl ((Bus.Publishes.send w _).trans (.listen _ _)) (.inr ⟨part, rfl⟩))
        · exact ((open?_of_all hwatch).trans hp).symm
        · cases hnone
    · next htab =>
      have hentered : entered? request line = some line := by rw [entered?, htab]
      rw [hentered] at hdoing
      exact does_reply hdoing hwatch rfl
  · next hlines =>
    rw [line?, hlines] at hdoing
    split
    · next hended =>
      rw [hended, Bool.true_or, if_pos rfl] at hdoing
      exact does_reply hdoing hwatch hidle
    · next hended =>
      rw [Bool.not_eq_true] at hended
      unfold rest
      split
      · next hkey =>
        rw [hkey, Bool.or_true, if_pos rfl] at hdoing
        simp only [pressKey, hp]
        exact does_reply hdoing hwatch hidle
      · next hkey =>
        rw [Bool.not_eq_true] at hkey
        rw [hended, hkey, Bool.or_false, if_neg Bool.false_ne_true] at hdoing
        exact leadsTo_wait (does_same h hdoing rfl rfl rfl .refl)

theorem does_takeRequest (h : Left last t) (hwatch : t.watch = .all)
    (hout : w.peek t.output = .waiting) (hexit : w.peek t.exits = .waiting)
    (hp : t.pending = none) : LeadsTo (Does last t w) (takeRequest t w) := by
  unfold takeRequest
  split
  · next hr =>
    have hdoing : t.doing? w = if t.keyPressed && t.responding then some .interrupts else none := by
      simp only [doing?, reply?, taken?, interrupting, hwatch, hout, hexit, hp, hr]
    unfold rest
    split
    · next hkey =>
      rw [hkey, Bool.true_and] at hdoing
      simp only [pressKey, hp]
      split
      · next hresponding =>
        rw [hresponding, if_pos rfl] at hdoing
        refine leadsTo_again ⟨?_, _, .send w (.interrupt .client), .inl ?_⟩
        · rw [hdoing, Option.some_or]
          refine ⟨fun _ => open?_of_all hwatch, fun _ hnone => ?_, rfl⟩
          cases hnone
        · rw [hdoing]
          rfl
      · next hresponding =>
        rw [if_neg hresponding] at hdoing
        exact leadsTo_again (does_same h hdoing rfl hp.symm rfl .refl)
    · next hkey =>
      rw [Bool.not_eq_true] at hkey
      rw [hkey, Bool.false_and, if_neg Bool.false_ne_true] at hdoing
      exact leadsTo_wait (does_same h hdoing rfl rfl rfl .refl)
  · next hr =>
    have hdoing : t.doing? w = none := by
      simp only [doing?, reply?, taken?, interrupting, hwatch, hout, hexit, hp, hr]
      rfl
    exact does_finish h hdoing none t.requests
  · next e he =>
    have hdoing : t.doing? w = some (.takes e.payload) := by
      simp only [doing?, reply?, taken?, hwatch, hout, hexit, hp, he]
    refine leadsTo_again ⟨?_, [], .taken w t.requests, .inl ?_⟩
    · rw [hdoing, Option.some_or]
      exact ⟨fun _ => open?_of_all hwatch, fun _ hpending => hpending, rfl⟩
    · rw [hdoing]
      rfl

theorem does_watchTurn (h : Left last t) (hwatch : t.watch = .all) :
    LeadsTo (Does last t w) (watchTurn t w) := by
  have hnone : w.peek t.output ≠ .waiting ∨ w.peek t.exits ≠ .waiting → t.doing? w = none := by
    intro hne
    have hreply : t.reply? w = none := by
      unfold reply?
      split
      · next hout hexit _ => exact (hne.elim (· hout) (· hexit)).elim
      · rfl
    have htaken : t.taken? w = none := by
      unfold taken?
      split
      · next hout hexit _ _ => exact (hne.elim (· hout) (· hexit)).elim
      · rfl
    have hinterrupting : t.interrupting w = false := by
      unfold interrupting
      split
      · next hout hexit _ _ => exact (hne.elim (· hout) (· hexit)).elim
      · rfl
    simp only [doing?, hreply, htaken, hinterrupting]
    rfl
  unfold watchTurn
  split
  · next e he =>
    have hn := hnone (.inl (by rw [he]; nofun))
    exact leadsTo_again (does_same h hn rfl rfl rfl (.taken w t.output))
  · next hout => exact does_finish h (hnone (.inl (by rw [hout]; nofun))) none t.output
  · next hout =>
    split
    · next e hexit => exact does_finish h (hnone (.inr (by rw [hexit]; nofun))) none t.exits
    · next hexit => exact does_finish h (hnone (.inr (by rw [hexit]; nofun))) none t.exits
    · next hexit =>
      split
      · next request hp => exact does_readLine t w h hwatch hout hexit hp
      · next hp => exact does_takeRequest t w h hwatch hout hexit hp

theorem does_completionTurn (h : Left last t) {request : Message} {line : String}
    {id : SubscriptionId} {deadline : Nat}
    (hwatch : t.watch = .completions request line id deadline) :
    LeadsTo (Does last t w) (completionTurn t request line id deadline w) := by
  have hn : t.doing? w = none := by
    simp only [doing?, reply?, taken?, interrupting, hwatch]
    rfl
  have hruns : t.isEnded = false := by rw [isEnded, hwatch]
  have hopen : t.open? = some request := by rw [open?, hwatch]
  have hreopen : ∀ {shown : Terminal} {w' : World}, shown.responding = t.responding →
      Bus.Publishes [] w.bus w'.bus → LeadsTo (Does last t w) (reopen shown request w') := by
    intro shown w' hshown hw'
    refine leadsTo_again (does_still h hn (fun _ => ⟨hruns, hopen.symm⟩) (fun other hp => ?_) hshown
      hw' (.inl rfl))
    exact .inr ⟨hruns, hopen.trans hp⟩
  have hread : Bus.Publishes [] w.bus ((w.taken id).release id).bus :=
    (Bus.Publishes.taken w id).trans (.release _ id)
  unfold completionTurn
  split
  · split
    · exact hreopen rfl hread
    · exact does_finish h hn _ id
  · exact hreopen rfl hread
  · split
    · exact hreopen rfl (.release w id)
    · exact leadsTo_wait (does_same h hn rfl rfl rfl .refl)

/-- **What a terminal has done last** decides where it stands, after every turn, and what it does
is all that it publishes, apart from requests for completions. -/
theorem does_turn (h : Left last t) : LeadsTo (Does last t w) (t.turn w) := by
  unfold turn
  split
  · next hwatch => exact does_watchTurn t w h hwatch
  · next hwatch => exact does_completionTurn t w h hwatch
  · next hwatch =>
    have hn : t.doing? w = none := by
      simp only [doing?, reply?, taken?, interrupting, hwatch]
      rfl
    exact leadsTo_wait (does_same h hn rfl rfl rfl .refl)

end

/-! ## What is published -/

section
variable {last : Option Doing} {t t' : Terminal} {w w' : World}

/-- Of what is said about lines a turn says the reply that it gives, and nothing else. -/
theorem Does.utters (h : Does last t w w' t') :
    Bus.Utters (((t.doing? w).bind Doing.reply?).toList.map Reply.event) w.bus w'.bus := by
  obtain ⟨es, hpublishes, hes⟩ := h.publishes
  have hcompletion : ¬Channel.IsForLines Channel.completionRequest :=
    Channel.not_isForLines (by decide) (by decide)
  have hinterrupt : ¬Channel.IsForLines Channel.interrupt :=
    Channel.not_isForLines (by decide) (by decide)
  rcases hes with rfl | ⟨hn, part, rfl⟩
  · cases hd : t.doing? w with
    | none =>
      rw [hd] at hpublishes
      exact .of_publishes hpublishes fun _ _ => rfl
    | some d =>
      rw [hd] at hpublishes
      cases d with
      | interrupts =>
        exact .of_silent hpublishes fun e he => List.mem_singleton.1 he ▸ hinterrupt
      | _ => exact .of_publishes hpublishes fun _ _ => rfl
  · rw [hn]
    exact .of_silent hpublishes fun e he => List.mem_singleton.1 he ▸ hcompletion

/-- An interrupt is published by a turn that interrupts. -/
theorem Does.interrupts (h : Does last t w w' t') (hw : w.bus.Agrees)
    {acts : List (Bus.Act Message)} (hacts : w'.bus = w.bus.run acts) (ha : .dispatch ∉ acts)
    {e : Event Message} (he : e ∈ Bus.published acts) (hc : e.channel = Channel.interrupt) :
    t.doing? w = some .interrupts := by
  obtain ⟨es, hpublishes, hes⟩ := h.publishes
  have hlength : es.length ≤ 1 := by
    rcases hes with rfl | ⟨-, part, rfl⟩
    · exact Option.length_toList_le
    · exact Nat.le_refl 1
  rw [hpublishes.published_eq hw hacts ha hlength] at he
  rcases hes with rfl | ⟨-, part, rfl⟩
  · obtain ⟨d, hd, hevent⟩ := Option.bind_eq_some_iff.1 (Option.mem_toList.1 he)
    cases d with
    | takes request => cases hevent
    | replies r entered =>
      cases hevent
      exact absurd hc (Channel.reply_ne (by decide) _ _)
    | interrupts => exact hd
  · rw [List.mem_singleton.1 he] at hc
    exact absurd hc (by decide : Channel.completionRequest ≠ Channel.interrupt)

/-! ## What is taken -/

/-- The request that the terminal takes is what it opens. -/
theorem doing?_opens (t : Terminal) (w : World) :
    (t.doing? w).bind Doing.opens? = t.taken? w := by
  unfold doing?
  split
  · next r hreply =>
    unfold reply? at hreply
    split at hreply
    · next hwatch hout hexit hp => simp only [taken?, hwatch, hout, hexit, hp]; rfl
    · cases hreply
  · next request _ htaken => exact htaken.symm
  · next _ htaken =>
    rw [htaken]
    split <;> rfl

theorem Moves.requests (h : t.Moves w w' t') : t'.requests = t.requests := by
  cases h with
  | goes _ hgoes _ => exact hgoes.continues.requests
  | _ => rfl

/-- **What a terminal takes** is what is owed to it first, and its turn adds nothing to that. -/
theorem owed_moves (h : t.Moves w w' t') (hw : w.bus.Agrees) (haddressed : w.bus.Addressed)
    (hgranted : w.bus.Granted t.requests (.channel Channel.inputRequest))
    {acts : List (Bus.Act Message)} (hacts : w'.bus = w.bus.run acts)
    (hc : Event.on Channel.inputRequest (Bus.published acts) = []) :
    ((t.taken? w).toList ++
      (w'.bus.owed t.requests Channel.inputRequest).map (·.payload)).Sublist
        ((w.bus.owed t.requests Channel.inputRequest).map (·.payload)) := by
  have hsame : t.taken? w = none → ((t.taken? w).toList ++
      (w'.bus.owed t.requests Channel.inputRequest).map (·.payload)).Sublist
        ((w.bus.owed t.requests Channel.inputRequest).map (·.payload)) := fun hn => by
    have hrun := hw.owed_run acts t.requests Channel.inputRequest
    rw [hc, List.append_nil, ← hacts] at hrun
    rw [hn]
    exact hrun.map _
  cases h with
  | @takes e hwatch hout hexit hp he =>
    have htaken : t.taken? w = some e.payload := by
      simp only [taken?, hwatch, hout, hexit, hp, he]
    have hcovers := Bus.covers_of_read haddressed hgranted he
    have hchannel : Event.on Channel.inputRequest [e] = [e] :=
      List.filter_cons_of_pos (eq_of_beq hcovers ▸ beq_self_eq_true _)
    rw [htaken, Bus.owed_of_read he, hchannel]
    exact List.Sublist.refl _
  | prints hwatch he => exact hsame (by simp only [taken?, hwatch, he])
  | ends hends _ => exact hsame hends.taken?
  | goes _ _ hn => exact hsame hn
  | rests hended => exact hsame (taken?_of_ended hended)

end

/-! ## One doing after the other -/

/-- What a terminal can do after what it has done last. -/
inductive Doing.Follows (last : Option Doing) : Doing → Prop
  | takes {request : Message} (h : last.bind opens? = none) : Follows last (.takes request)
  | replies {r : Reply} {entered : Bool} (h : last.bind opens? = some r.request)
    (ht : r.message.text? = some r.line) : Follows last (.replies r entered)
  | interrupts (h : last.bind opens? = none) (hs : last.any starts = true) :
    Follows last .interrupts

/-- What terminals do in their turns, one after the other. -/
inductive InTurn : List Doing → Prop
  | nil : InTurn []
  | concat {ds : List Doing} {d : Doing} (h : InTurn ds) (hd : d.Follows ds.getLast?) :
    InTurn (ds ++ [d])

theorem Left.follows {last : Option Doing} {t : Terminal} {w : World} {d : Doing}
    (h : Left last t) (hd : t.doing? w = some d) : d.Follows last := by
  unfold doing? at hd
  split at hd
  · next r hreply =>
    cases hd
    refine .replies ?_ (reply?_spec hreply).1
    unfold reply? at hreply
    split at hreply
    · next request _ _ _ hp =>
      obtain ⟨line, -, rfl⟩ := Option.map_eq_some_iff.1 hreply
      exact h.pending request hp
    · cases hreply
  · next request _ htaken =>
    cases hd
    unfold taken? at htaken
    split at htaken
    · next hwatch _ _ hp _ =>
      exact .takes ((h.opened (isEnded_of_all hwatch)).symm.trans ((open?_of_all hwatch).trans hp))
    · cases htaken
  · split at hd
    · next hinterrupting =>
      cases hd
      unfold interrupting at hinterrupting
      split at hinterrupting
      · next hwatch _ _ hp _ =>
        refine .interrupts ?_ ?_
        · exact (h.opened (isEnded_of_all hwatch)).symm.trans ((open?_of_all hwatch).trans hp)
        · exact h.responding.symm.trans (Bool.and_eq_true_iff.1 hinterrupting).2
      · cases hinterrupting
    · cases hd

namespace InTurn

variable {ds : List Doing}

/-- The requests that have been taken have been replied to, but for the one that is open. -/
theorem taken (h : InTurn ds) : ds.filterMap Doing.opens? =
    (ds.filterMap Doing.reply?).map (·.request) ++ (ds.getLast?.bind Doing.opens?).toList := by
  induction h with
  | nil => rfl
  | concat h hd ih =>
    rw [Course.filterMap_concat, Course.filterMap_concat, List.getLast?_concat, ih]
    cases hd with
    | takes hn => simp [hn, Doing.opens?, Doing.reply?]
    | replies hopen _ => simp [hopen, Doing.opens?, Doing.reply?]
    | interrupts hn _ => simp [hn, Doing.opens?, Doing.reply?]

theorem text (h : InTurn ds) : ∀ r ∈ ds.filterMap Doing.reply?, r.message.text? = some r.line := by
  induction h with
  | nil => exact nofun
  | concat h hd ih =>
    intro r hr
    rw [Course.filterMap_concat] at hr
    rcases List.mem_append.1 hr with hr | hr
    · exact ih r hr
    · cases hd with
      | replies _ ht =>
        obtain rfl := List.mem_singleton.1 hr
        exact ht
      | _ => cases hr

/-- What comes after a doing can come after it. -/
theorem follows (h : InTurn ds) {earlier later : List Doing} {d d' : Doing}
    (hds : ds = earlier ++ d :: d' :: later) : d'.Follows (some d) := by
  induction h generalizing later with
  | nil => simp at hds
  | @concat ds last h hd ih =>
    rcases Course.split_concat (hds.trans (List.append_cons earlier d _)) with
      ⟨hinit, rfl, -⟩ | ⟨init, -, hinit⟩
    · rwa [← hinit, List.getLast?_concat] at hd
    · exact ih (hinit.trans (List.append_cons earlier d _).symm)

/-- After a reply a terminal takes a request or interrupts before it replies again. -/
theorem eq_nil_of_replies (h : InTurn ds) {earlier later : List Doing} {r : Reply} {entered : Bool}
    (hds : ds = earlier ++ .replies r entered :: later) (htakes : ∀ request, .takes request ∉ later)
    (hinterrupts : .interrupts ∉ later) : later = [] := by
  cases later with
  | nil => rfl
  | cons d later =>
    have hfollows := h.follows hds
    cases hfollows with
    | takes _ => exact absurd List.mem_cons_self (htakes _)
    | replies hopen _ => cases hopen
    | interrupts _ _ => exact absurd List.mem_cons_self hinterrupts

end InTurn

end Parley.Terminal
