import Parley.Proofs.Session.Handling
import Parley.Session.Program
import Parley.Terminal.Print

/-!
# What a turn of the terminal comes to

A turn of a terminal prints a message, takes a request, ends, or goes on without reading any of its
three listeners (`Terminal.Moves`). It takes a request only when it finds nothing to print, and it
ends only when it finds the end of what it prints, or nothing to print and the end of the session,
or completions that are none (`Terminal.Ends`).
-/

set_option autoImplicit false

namespace Parley

namespace Print

def message? : Print → Option Message
  | message m => some m
  | _ => none

/-- The messages among what is printed. -/
def messages (ps : List Print) : List Message := ps.filterMap message?

theorem messages_append (ps qs : List Print) : messages (ps ++ qs) = messages ps ++ messages qs :=
  List.filterMap_append

/-- The texts of the messages among what is printed. -/
def messageTexts (color : Bool) (ps : List Print) : List String :=
  (ps.filter (·.message?.isSome)).map (render color)

theorem messageTexts_eq (color : Bool) (ps : List Print) :
    messageTexts color ps = (messages ps).map (renderMessage color) := by
  induction ps with
  | nil => rfl
  | cons p ps ih =>
    cases p with
    | message m => exact congrArg (renderMessage color m :: ·) ih
    | _ => exact ih

def isPrompt : Print → Bool
  | prompt _ => true
  | _ => false

end Print

namespace Terminal

/-- The listener to completions, while it waits for them. -/
def own (t : Terminal) : List SubscriptionId :=
  match t.watch with
  | .completions _ _ reply _ => [reply]
  | _ => []

theorem own_of_all {t : Terminal} (h : t.watch = .all) : t.own = [] := by
  rw [own, h]

/-- The request that is open, also while completions are waited for. -/
def open? (t : Terminal) : Option Message :=
  match t.watch with
  | .all => t.pending
  | .completions request _ _ _ => some request
  | .ended _ => none

theorem open?_of_all {t : Terminal} (h : t.watch = .all) : t.open? = t.pending := by
  rw [open?, h]

theorem open?_of_ended {t : Terminal} (h : t.isEnded = true) : t.open? = none := by
  unfold isEnded at h
  split at h
  · next hw => rw [open?, hw]
  · cases h

/-- The request that the terminal takes in its turn: it watches everything, finds nothing to print
and no end, and no request is open. -/
def taken? (t : Terminal) (w : World) : Option Message :=
  match t.watch, w.peek t.output, w.peek t.exits, t.pending, w.peek t.requests with
  | .all, .waiting, .waiting, none, .event e => some e.payload
  | _, _, _, _, _ => none

/-- What the terminal prints beside messages: a prompt only while a request is open. -/
structure Aside (t : Terminal) (p : Print) : Prop where
  message : p.message? = none
  prompt : p.isPrompt = true → ∃ request, t.open? = some request

/-- The terminal listens as before, has printed no further message, and has taken no request. -/
structure Continues (t t' : Terminal) : Prop where
  output : t'.output = t.output
  requests : t'.requests = t.requests
  exits : t'.exits = t.exits
  printed : ∃ ps, t'.printed = t.printed ++ ps ∧ ∀ p ∈ ps, t.Aside p
  opened : ∀ request, t'.open? = some request → t.open? = some request

namespace Continues

variable {t t' t'' : Terminal}

theorem of_printed (ho : t'.output = t.output) (hr : t'.requests = t.requests)
    (hx : t'.exits = t.exits) (hp : t'.printed = t.printed)
    (hopen : ∀ request, t'.open? = some request → t.open? = some request) : t.Continues t' :=
  ⟨ho, hr, hx, ⟨[], by rw [hp, List.append_nil], nofun⟩, hopen⟩

theorem refl (t : Terminal) : t.Continues t := of_printed rfl rfl rfl rfl fun _ h => h

theorem trans (h : t.Continues t') (h' : t'.Continues t'') : t.Continues t'' := by
  obtain ⟨ps, hps, haside⟩ := h.printed
  obtain ⟨qs, hqs, haside'⟩ := h'.printed
  refine ⟨h'.output.trans h.output, h'.requests.trans h.requests, h'.exits.trans h.exits,
    ⟨ps ++ qs, by rw [hqs, hps, List.append_assoc], fun p hp => ?_⟩,
    fun request hr => h.opened request (h'.opened request hr)⟩
  rcases List.mem_append.1 hp with hp | hp
  · exact haside p hp
  · exact ⟨(haside' p hp).message, fun hprompt => ((haside' p hp).prompt hprompt).imp h.opened⟩

theorem print {p : Print} (h : t.Aside p) : t.Continues (t.print p) :=
  ⟨rfl, rfl, rfl, ⟨[p], rfl, fun _ hp => List.mem_singleton.1 hp ▸ h⟩, fun _ hr => hr⟩

theorem messages (h : t.Continues t') : Print.messages t'.printed = Print.messages t.printed := by
  obtain ⟨ps, hps, haside⟩ := h.printed
  have hnone : Print.messages ps = [] :=
    List.filterMap_eq_nil_iff.2 fun p hp => (haside p hp).message
  rw [hps, Print.messages_append, hnone, List.append_nil]

end Continues

/-- The terminal goes on with its three listeners as they are. A listener to completions is one to
the reply to a request for them. -/
structure Goes (t : Terminal) (w w' : World) (t' : Terminal) : Prop where
  continues : t.Continues t'
  watch : t'.isEnded = false
  handles : Handles t.own w t'.own w'
  granted : w.bus.Agrees → ∀ id ∈ t'.own, id ∈ t.own ∨ ∃ request,
    w'.bus.Granted id (.channel (Channel.reply Channel.completionRequest request))

/-- A terminal that has ended takes no request. -/
theorem taken?_of_ended {t : Terminal} {w : World} (h : t.isEnded = true) : t.taken? w = none := by
  unfold isEnded at h
  split at h
  · next hw => simp only [taken?, hw]
  · cases h

/-- Why a terminal ends in its turn; the text is what was wrong with completions. -/
inductive Ends (t : Terminal) (w : World) : Option String → Prop
  | output (hw : t.watch = .all) (ho : w.peek t.output = .closed) : Ends t w none
  | exits (hw : t.watch = .all) (ho : w.peek t.output = .waiting)
    (hx : w.peek t.exits ≠ .waiting) : Ends t w none
  | requests (hw : t.watch = .all) (ho : w.peek t.output = .waiting)
    (hr : w.peek t.requests = .closed) : Ends t w none
  | fault {request : Message} {line : String} {id : SubscriptionId} {deadline : Nat}
    {e : Event Message} (hw : t.watch = .completions request line id deadline)
    (he : w.peek id = .event e) (hnone : Words.Completion.listOfValue? e.payload.data = none)
    (text : String) : Ends t w (some text)

theorem isEnded_of_all {t : Terminal} (h : t.watch = .all) : t.isEnded = false := by
  rw [isEnded, h]

theorem mem_holds {t : Terminal} (h : t.isEnded = false) {id : SubscriptionId}
    (hid : id = t.output ∨ id = t.requests ∨ id = t.exits) : id ∈ t.holds := by
  unfold isEnded at h
  unfold holds
  split <;> simp_all

/-- A terminal holds its three listeners, and one to completions while it waits for them. -/
theorem own_of_mem {t : Terminal} {id : SubscriptionId} (h : id ∈ t.holds) :
    (t.isEnded = false ∧ id ∈ t.own) ∨ id = t.output ∨ id = t.requests ∨ id = t.exits := by
  unfold holds at h
  split at h
  · exact .inr (by simpa using h)
  · next hw =>
    rcases List.mem_cons.1 h with rfl | hid
    · refine .inl ⟨by rw [isEnded, hw], ?_⟩
      rw [own, hw]
      exact List.mem_singleton_self _
    · exact .inr (by simpa using hid)
  · exact absurd h List.not_mem_nil

theorem Ends.running {t : Terminal} {w : World} {fault : Option String} (h : t.Ends w fault) :
    t.isEnded = false := by
  cases h with
  | fault hw => rw [isEnded, hw]
  | output hw | exits hw | requests hw => exact isEnded_of_all hw

/-- A turn in which the terminal ends takes no request. -/
theorem Ends.taken? {t : Terminal} {w : World} {fault : Option String} (h : t.Ends w fault) :
    t.taken? w = none := by
  cases h with
  | output hw ho => simp only [Terminal.taken?, hw, ho]
  | exits hw ho hx =>
    cases hpeek : w.peek t.exits with
    | waiting => exact absurd hpeek hx
    | _ => simp only [Terminal.taken?, hw, ho, hpeek]
  | requests hw ho hr =>
    cases hx : w.peek t.exits <;> cases hp : t.pending <;>
      simp only [Terminal.taken?, hw, ho, hx, hp, hr]
  | fault hw => simp only [Terminal.taken?, hw]

/-- What a turn of the terminal comes to. -/
inductive Moves (t : Terminal) (w : World) : World → Terminal → Prop
  | prints {e : Event Message} (hw : t.watch = .all) (he : w.peek t.output = .event e) :
    Moves t w (w.taken t.output) (t.print (.message e.payload))
  | takes {e : Event Message} (hw : t.watch = .all) (ho : w.peek t.output = .waiting)
    (hx : w.peek t.exits = .waiting) (hp : t.pending = none)
    (he : w.peek t.requests = .event e) :
    Moves t w (w.taken t.requests) ({ t with pending := some e.payload, responding := false }.print
      (.prompt (isPlain e.payload)))
  | ends {w' : World} {fault : Option String} (h : t.Ends w fault)
    (hw : Handles t.holds w [] w') : Moves t w w' { t with watch := .ended fault }
  | goes {w' : World} {t' : Terminal} (hr : t.isEnded = false) (h : t.Goes w w' t')
    (hn : t.taken? w = none) : Moves t w w' t'
  | rests (h : t.isEnded = true) : Moves t w w t

/-- A terminal that does as `P` says is what the turn leads to. -/
def LeadsTo (P : World → Terminal → Prop) (led : World × Progress Activity) : Prop :=
  ∃ t : Terminal, (led.2 = .wait (.terminal t) ∨ led.2 = .again (.terminal t)) ∧ P led.1 t

theorem LeadsTo.imp {P Q : World → Terminal → Prop} {led : World × Progress Activity}
    (h : LeadsTo P led) (hpq : ∀ w t, P w t → Q w t) : LeadsTo Q led := by
  obtain ⟨t, hnext, ht⟩ := h
  exact ⟨t, hnext, hpq _ t ht⟩

theorem leadsTo_wait {P : World → Terminal → Prop} {w : World} {t : Terminal} (h : P w t) :
    LeadsTo P (wait t w) := ⟨t, .inl rfl, h⟩

theorem leadsTo_again {P : World → Terminal → Prop} {w : World} {t : Terminal} (h : P w t) :
    LeadsTo P (again t w) := ⟨t, .inr rfl, h⟩

/-! ## Going on -/

section
variable (t : Terminal) {t' : Terminal} {w : World}

/-- A terminal that has put down or taken up something goes on as the other does. -/
theorem LeadsTo.after (t' : Terminal) {led : World × Progress Activity} (h : t.Continues t')
    (hw : t'.watch = t.watch) (hled : LeadsTo (t'.Goes w) led) : LeadsTo (t.Goes w) led := by
  have hown : t'.own = t.own := by rw [own, hw, own]
  refine hled.imp fun w' t'' hgoes => ⟨h.trans hgoes.continues, hgoes.watch, ?_, ?_⟩
  · exact hown ▸ hgoes.handles
  · exact hown ▸ hgoes.granted

theorem goes_still (h : t.isEnded = false) : t.Goes w w t :=
  ⟨.refl t, h, .rest, fun _ _ hid => .inl hid⟩

theorem goes_send (h : t.watch = .all) (o : Outgoing) : t.Goes w (w.send o) t := by
  refine ⟨.refl t, isEnded_of_all h, handles_send _ w o, fun _ _ hid => .inl hid⟩

theorem continues_put (h : t.watch = .all) : t.Continues { t with pending := none } := by
  refine .of_printed rfl rfl rfl rfl fun request hr => ?_
  have hput : open? { t with pending := none } = none := open?_of_all h
  rw [hput] at hr
  cases hr

theorem goes_reply (h : t.watch = .all) (request : Message) (line : String) :
    LeadsTo (t.Goes w) (reply t request line w) := by
  let put : Terminal := { t with pending := none }
  exact .after t put (continues_put t h) rfl
    (leadsTo_again (goes_send put h (answer request line)))

theorem aside_lineEnd : t.Aside .lineEnd := ⟨rfl, nofun⟩

theorem goes_pressKey (h : t.watch = .all) : LeadsTo (t.Goes w) (pressKey t w) := by
  let put : Terminal := { t with keyPressed := false }
  have hput : t.Continues put := .of_printed rfl rfl rfl rfl fun _ hr => hr
  simp only [pressKey]
  split
  · exact .after t (put.print .lineEnd) (hput.trans (.print put.aside_lineEnd)) rfl
      (goes_reply (put.print .lineEnd) h _ _)
  · split
    · let idle : Terminal := { put with responding := false }
      exact .after t idle (.of_printed rfl rfl rfl rfl fun _ hr => hr) rfl
        (leadsTo_again (goes_send idle h (.interrupt .client)))
    · exact .after t put hput rfl (leadsTo_again (goes_still put (isEnded_of_all h)))

theorem goes_rest (h : t.watch = .all) : LeadsTo (t.Goes w) (rest t w) := by
  unfold rest
  split
  · exact goes_pressKey t h
  · exact leadsTo_wait (goes_still t (isEnded_of_all h))

theorem goes_complete (h : t.watch = .all) {request : Message} (hp : t.pending = some request)
    (line : String) : LeadsTo (t.Goes w) (complete t request line w) := by
  have hsent := handles_send t.own w (completionRequest line)
  have hlistened := Schedule.roused_nudge { w.send (completionRequest line) with
    bus := (w.send (completionRequest line)).bus.subscribe
      (.channel (w.stamp (completionRequest line)).replyChannel) }
  refine leadsTo_wait ⟨.of_printed rfl rfl rfl rfl fun _ hr => ?_, rfl,
    hsent.trans (handles_listen _ _ fun i => ?_), fun hagrees id hid =>
      .inr ⟨(w.stamp (completionRequest line)).id, ?_⟩⟩
  · rw [open?_of_all h, hp]
    exact hr
  · rw [own_of_all h]
    simp [own]
  · obtain rfl := List.mem_singleton.1 hid
    have hgranted := (hsent.bus.agrees hagrees).granted_subscribe
      (.channel (w.stamp (completionRequest line)).replyChannel)
    have hbus : (w.send (completionRequest line)).bus.subscribe _ = _ := hlistened.bus.symm
    rw [hbus] at hgranted
    exact hgranted

theorem goes_useLine (h : t.watch = .all) {request : Message} (hp : t.pending = some request)
    (line : String) : LeadsTo (t.Goes w) (useLine t request line w) := by
  unfold useLine
  split
  · split
    · exact goes_reply t h _ _
    · exact goes_complete t h hp _
  · let sent : Terminal := { t with responding := startsResponse request line }
    exact .after t sent (.of_printed rfl rfl rfl rfl fun _ hr => hr) rfl (goes_reply sent h _ _)

theorem goes_readLine (h : t.watch = .all) {request : Message} (hp : t.pending = some request) :
    LeadsTo (t.Goes w) (readLine t request w) := by
  unfold readLine
  split
  · next line lines _ =>
    let left : Terminal := { t with lines }
    exact .after t left (.of_printed rfl rfl rfl rfl fun _ hr => hr) rfl (goes_useLine left h hp _)
  · split
    · exact .after t (t.print .lineEnd) (.print t.aside_lineEnd) rfl
        (goes_reply (t.print .lineEnd) h _ _)
    · exact goes_rest t h

theorem goes_reopen {w' : World} (h : t.Continues t') {request : Message}
    (hopen : t'.open? = some request) (hw : Handles t.own w [] w') :
    LeadsTo (t.Goes w) (reopen t' request w') := by
  let opened : Terminal :=
    { t' with watch := .all, pending := some request, keyPressed := false }
  have hopened : t'.Continues opened := .of_printed rfl rfl rfl rfl fun _ hr => by
    rw [hopen]
    exact hr
  have hprompt : opened.Aside (.prompt false) := ⟨rfl, fun _ => ⟨request, rfl⟩⟩
  exact leadsTo_again ⟨(h.trans hopened).trans (.print hprompt), rfl, hw,
    fun _ id hid => absurd hid List.not_mem_nil⟩

end

/-! ## Ending -/

section
variable {t : Terminal} {w : World}

theorem moves_finish {fault : Option String} (h : t.Ends w fault) {id : SubscriptionId}
    (hid : id ∈ t.holds) : LeadsTo (t.Moves w) (finish t fault (w.taken id)) := by
  refine leadsTo_wait (.ends h ((handles_taken w hid).trans ?_))
  have hall : Handles (t.holds ++ []) (w.taken id) [] ((w.taken id).releaseAll t.holds) :=
    handles_releaseAll (w.taken id) t.holds
  rwa [List.append_nil] at hall

theorem holds_of_all (h : t.watch = .all) : t.holds = [t.output, t.requests, t.exits] := by
  rw [holds, h]

/-! ## A turn -/

theorem moves_takeRequest (h : t.watch = .all) (ho : w.peek t.output = .waiting)
    (hx : w.peek t.exits = .waiting) (hp : t.pending = none) :
    LeadsTo (t.Moves w) (takeRequest t w) := by
  unfold takeRequest
  split
  · next hr =>
    have hn : t.taken? w = none := by simp only [taken?, h, ho, hx, hp, hr]
    exact (goes_rest t h).imp fun _ _ hgoes => .goes (isEnded_of_all h) hgoes hn
  · next hr => exact moves_finish (.requests h ho hr) (by simp [holds_of_all h])
  · next e he => exact leadsTo_again (.takes h ho hx hp he)

theorem moves_watchTurn (h : t.watch = .all) : LeadsTo (t.Moves w) (watchTurn t w) := by
  have hexit (ho : w.peek t.output = .waiting) (hx : w.peek t.exits ≠ .waiting) :
      LeadsTo (t.Moves w) (finish t none (w.taken t.exits)) :=
    moves_finish (.exits h ho hx) (by simp [holds_of_all h])
  unfold watchTurn
  split
  · next e he => exact leadsTo_again (.prints h he)
  · next ho => exact moves_finish (.output h ho) (by simp [holds_of_all h])
  · next ho =>
    split
    · next hx => exact hexit ho (by rw [hx]; nofun)
    · next hx => exact hexit ho (by rw [hx]; nofun)
    · next hx =>
      split
      · next request hp =>
        have hn : t.taken? w = none := by simp only [taken?, h, ho, hx, hp]
        exact (goes_readLine t h hp).imp fun _ _ hgoes => .goes (isEnded_of_all h) hgoes hn
      · next hp => exact moves_takeRequest h ho hx hp

theorem moves_completionTurn {request : Message} {line : String} {id : SubscriptionId}
    {deadline : Nat} (h : t.watch = .completions request line id deadline) :
    LeadsTo (t.Moves w) (completionTurn t request line id deadline w) := by
  have hown : t.own = [id] := by rw [own, h]
  have hn : t.taken? w = none := by simp only [taken?, h]
  have hruns : t.isEnded = false := by rw [isEnded, h]
  have hopen : t.open? = some request := by rw [open?, h]
  have hread : Handles t.own w [] ((w.taken id).release id) := hown ▸ handles_read w id
  unfold completionTurn
  split
  · next e he =>
    split
    · next cs _ =>
      have hmenu : t.Aside (menu line cs) := by
        unfold menu
        split <;> exact ⟨rfl, nofun⟩
      exact (goes_reopen t (.print hmenu) hopen hread).imp fun _ _ hgoes => .goes hruns hgoes hn
    · next hnone => exact moves_finish (.fault h he hnone _) (by simp [holds, h])
  · exact (goes_reopen t (.refl t) hopen hread).imp fun _ _ hgoes => .goes hruns hgoes hn
  · split
    · have hrelease : Handles t.own w [] (w.release id) := hown ▸ handles_release w id
      exact (goes_reopen t (.refl t) hopen hrelease).imp fun _ _ hgoes => .goes hruns hgoes hn
    · exact leadsTo_wait (.goes hruns (goes_still t hruns) hn)

/-- **What a turn of the terminal comes to.** -/
theorem moves_turn (t : Terminal) (w : World) : LeadsTo (t.Moves w) (t.turn w) := by
  unfold turn
  split
  · next h => exact moves_watchTurn h
  · next h => exact moves_completionTurn h
  · next h => exact leadsTo_wait (.rests (by rw [isEnded, h]))

end

/-! ## What every turn keeps -/

section
variable {t t' : Terminal} {w w' : World}

theorem Moves.acts (h : t.Moves w w' t') : ∃ acts, w'.bus = w.bus.run acts ∧ .dispatch ∉ acts := by
  have hhandles : ∀ {held held' : List SubscriptionId}, Handles held w held' w' →
      ∃ acts, w'.bus = w.bus.run acts ∧ .dispatch ∉ acts := fun hw => by
    obtain ⟨acts, hbus, hprivate⟩ := hw.bus.acts
    exact ⟨acts, hbus, fun hd => hprivate _ hd⟩
  cases h with
  | prints => exact hhandles (handles_taken w (List.mem_singleton_self t.output))
  | takes => exact hhandles (handles_taken w (List.mem_singleton_self t.requests))
  | ends _ hw => exact hhandles hw
  | goes _ h _ => exact hhandles h.handles
  | rests => exact ⟨[], rfl, List.not_mem_nil⟩

theorem Moves.tasks (h : t.Moves w w' t') : w'.tasks = w.tasks := by
  cases h with
  | ends _ hw => exact hw.tasks
  | goes _ h _ => exact h.handles.tasks
  | _ => rfl

end

end Terminal

end Parley
