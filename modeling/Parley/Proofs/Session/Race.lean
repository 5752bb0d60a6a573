import Mathlib.Logic.Relation
import Parley.Proofs.Bus.Bystander
import Parley.Proofs.Session.Handling

/-!
# Races against an interrupt

A `Heat` is a race that has been started in some world, and a record of what others have put on the
bus and been handed since. It goes on (`Heat.Step`) when the race is looked at and is not over, or
when others do anything but read and drop what the race holds. `Race.Listens` is the account of the
listener's mailbox: nothing of it has been read, and the events in it are the interrupts that were
handed out since the race was started. `Race.Ends` and `Race.GoesOn` say what one look at a race can
do, and `Race.Works` what it makes of the work: the work is looked at, and once more after the
listener has been given up.
-/

set_option autoImplicit false

namespace Parley

/-! ## One look at a race -/

section
variable {β : Type}

namespace Race

/-- What a look in `w` finds that the work has come to. -/
inductive Works (r : Race β) (w : World) : Poll (Except Error β) (Working β) → Prop
  | once {w' : World} {polled : Poll (Except Error β) (Working β)}
    (hwork : r.work.poll w = (w', polled)) : Works r w polled
  | again {w₁ w' : World} {work : Working β} {id : SubscriptionId}
    {polled : Poll (Except Error β) (Working β)} (hwork : r.work.poll w = (w₁, .pending work))
    (hid : r.interrupts = some id) (hpeek : w₁.peek id = .closed)
    (hagain : work.poll ((w₁.taken id).release id) = (w', polled)) : Works r w polled

/-- What is left of a job after the race for it has been looked at some times. -/
inductive Worked (job : Job β) : Working β → Prop
  | fresh : Worked job (.fresh job)
  | looked {r : Race β} {w : World} {rest : Working β} (h : Worked job r.work)
    (hw : r.Works w (.pending rest)) : Worked job rest

/-- How a race ends that is looked at in `w`, and the world then. -/
inductive Ends (r : Race β) (w : World) : Except Error (Except Error β) → World → Prop
  | won {w' : World} {v : Except Error β} (hwork : r.work.poll w = (w', .ready v)) :
    Ends r w (.ok v) (w'.releaseAll r.interrupts.toList)
  | wonAlone {w₁ w' : World} {work : Working β} {id : SubscriptionId} {v : Except Error β}
    (hwork : r.work.poll w = (w₁, .pending work)) (hid : r.interrupts = some id)
    (hpeek : w₁.peek id = .closed)
    (hagain : work.poll ((w₁.taken id).release id) = (w', .ready v)) : Ends r w (.ok v) w'
  | interrupted {w₁ : World} {work : Working β} {id : SubscriptionId} {e : Event Message}
    (hwork : r.work.poll w = (w₁, .pending work)) (hid : r.interrupts = some id)
    (hpeek : w₁.peek id = .event e) :
    Ends r w (.error .interrupted) (((w₁.taken id).releaseAll work.holds).release id)

/-- How a race goes on that is looked at in `w`, and the world then. -/
inductive GoesOn (r : Race β) (w : World) : Race β → World → Prop
  | alone {w' : World} {work : Working β} (hwork : r.work.poll w = (w', .pending work))
    (hid : r.interrupts = none) : GoesOn r w ⟨work, none⟩ w'
  | listening {w' : World} {work : Working β} {id : SubscriptionId}
    (hwork : r.work.poll w = (w', .pending work)) (hid : r.interrupts = some id)
    (hpeek : w'.peek id = .waiting) : GoesOn r w ⟨work, some id⟩ w'
  | closed {w₁ w' : World} {work rest : Working β} {id : SubscriptionId}
    (hwork : r.work.poll w = (w₁, .pending work)) (hid : r.interrupts = some id)
    (hpeek : w₁.peek id = .closed)
    (hagain : work.poll ((w₁.taken id).release id) = (w', .pending rest)) :
    GoesOn r w ⟨rest, none⟩ w'

theorem Ends.works {r : Race β} {w w' : World} {v : Except Error β} (h : r.Ends w (.ok v) w') :
    r.Works w (.ready v) := by
  cases h with
  | won hwork => exact .once hwork
  | wonAlone hwork hid hpeek hagain => exact .again hwork hid hpeek hagain

theorem GoesOn.works {r r' : Race β} {w w' : World} (h : r.GoesOn w r' w') :
    r.Works w (.pending r'.work) := by
  cases h with
  | alone hwork hid => exact .once hwork
  | listening hwork hid hpeek => exact .once hwork
  | closed hwork hid hpeek hagain => exact .again hwork hid hpeek hagain

/-- **One look at a race**: it is over, or it goes on. -/
theorem poll_cases (r : Race β) (w : World) :
    (∃ result w', r.poll w = (w', .ready result) ∧ r.Ends w result w') ∨
      ∃ r' w', r.poll w = (w', .pending r') ∧ r.GoesOn w r' w' := by
  cases hwork : r.work.poll w with
  | mk w₁ polled =>
    cases polled with
    | ready v =>
      refine .inl ⟨_, _, ?_, .won hwork⟩
      simp only [poll, hwork, won]
    | pending work =>
      cases hid : r.interrupts with
      | none =>
        refine .inr ⟨_, _, ?_, .alone hwork hid⟩
        simp only [poll, hwork, hid]
      | some id =>
        cases hpeek : w₁.peek id with
        | waiting =>
          refine .inr ⟨_, _, ?_, .listening hwork hid hpeek⟩
          simp only [poll, hwork, hid, hpeek]
        | event e =>
          refine .inl ⟨_, _, ?_, .interrupted hwork hid hpeek⟩
          simp only [poll, hwork, hid, hpeek]
        | closed =>
          cases hagain : work.poll ((w₁.taken id).release id) with
          | mk w' polled =>
            cases polled with
            | ready v =>
              refine .inl ⟨_, _, ?_, .wonAlone hwork hid hpeek hagain⟩
              simp only [poll, hwork, hid, hpeek, alone, hagain]
            | pending rest =>
              refine .inr ⟨_, _, ?_, .closed hwork hid hpeek hagain⟩
              simp only [poll, hwork, hid, hpeek, alone, hagain]

theorem ends_of_poll {r : Race β} {w w' : World} {result : Except Error (Except Error β)}
    (h : r.poll w = (w', .ready result)) : r.Ends w result w' := by
  rcases r.poll_cases w with ⟨result', w'', hpoll, hends⟩ | ⟨r', w'', hpoll, -⟩
  · rw [h] at hpoll
    cases hpoll
    exact hends
  · rw [h] at hpoll
    cases hpoll

theorem goesOn_of_poll {r r' : Race β} {w w' : World} (h : r.poll w = (w', .pending r')) :
    r.GoesOn w r' w' := by
  rcases r.poll_cases w with ⟨result, w'', hpoll, -⟩ | ⟨r'', w'', hpoll, hgoes⟩
  · rw [h] at hpoll
    cases hpoll
  · rw [h] at hpoll
    cases hpoll
    exact hgoes

/-! ## The listener -/

/-- The account of the listener's mailbox, while there is a listener (module doc). -/
structure Listens (r : Race β) (b : Bus Message) (heard : List (Event Message)) : Prop where
  agrees : b.Agrees
  apart : ∀ id, r.interrupts = some id → id ∉ r.work.holds
  mailbox : ∀ id, r.interrupts = some id →
    ∃ inbox, b.Tracks id Channel.interrupt inbox [] heard

theorem bus_listen (w : World) (channel : String) :
    (w.listen channel).bus = w.bus.subscribe (.channel channel) :=
  (Schedule.roused_nudge _).bus

theorem listens_start (job : Job β) {w : World} (hw : w.bus.Agrees) :
    (Race.start job w).1.Listens (Race.start job w).2.bus [] := by
  have hbus : (Race.start job w).2.bus = w.bus.subscribe (.channel Channel.interrupt) :=
    bus_listen w Channel.interrupt
  rw [hbus]
  refine ⟨hw.subscribe _, ?_, ?_⟩
  · intro id _ hmem
    cases hmem
  · intro id hid
    cases hid
    exact ⟨[], hw.tracks_subscribe _⟩

namespace Listens

variable {r : Race β} {w : World} {heard : List (Event Message)}

/-- What others do keeps the account. -/
theorem others {b : Bus Message} (h : r.Listens b heard) {acts : List (Bus.Act Message)}
    (ha : ∀ id ∈ r.holds, ∀ a ∈ acts, a.Avoids id) :
    r.Listens (b.run acts) (heard ++ b.handed acts) := by
  refine ⟨h.agrees.run acts, h.apart, ?_⟩
  intro id hid
  have hmem : id ∈ r.holds := by simp [holds, hid]
  obtain ⟨inbox, htracks⟩ := h.mailbox id hid
  obtain ⟨ds, hds⟩ := htracks.run h.agrees (ha id hmem)
  exact ⟨_, hds⟩

/-- The work does nothing to the listener's mailbox. -/
theorem subscription?_work (h : r.Listens w.bus heard) {w' : World}
    {polled : Poll (Except Error β) (Working β)} (hwork : r.work.poll w = (w', polled))
    {id : SubscriptionId} (hid : r.interrupts = some id) :
    w'.bus.subscription? id = w.bus.subscription? id := by
  have hhandles := handles_workingPoll r.work [] w
  rw [hwork, List.append_nil, List.append_nil] at hhandles
  obtain ⟨inbox, htracks⟩ := h.mailbox id hid
  have hold : id < w.bus.nextId := h.agrees.old _ htracks.mem_roster
  exact hhandles.bus.mailbox h.agrees (h.apart id hid) hold

theorem work (h : r.Listens w.bus heard) {w' : World} {rest : Working β}
    (hwork : r.work.poll w = (w', .pending rest)) :
    Race.Listens ⟨rest, r.interrupts⟩ w'.bus heard := by
  have hhandles := handles_workingPoll r.work [] w
  rw [hwork, List.append_nil, List.append_nil] at hhandles
  refine ⟨hhandles.bus.agrees h.agrees, ?_, ?_⟩
  · intro id hid hmem
    obtain ⟨inbox, htracks⟩ := h.mailbox id hid
    have hold : id < w.bus.nextId := h.agrees.old _ htracks.mem_roster
    rcases hhandles.bus.fresh h.agrees hmem with hmem | hle
    · exact h.apart id hid hmem
    · exact absurd hold (Nat.not_lt.2 hle)
  · intro id hid
    obtain ⟨inbox, htracks⟩ := h.mailbox id hid
    exact ⟨inbox, htracks.congr (h.subscription?_work hwork hid)⟩

/-- A race that is looked at and goes on keeps the account. -/
theorem goesOn (h : r.Listens w.bus heard) {r' : Race β} {w' : World} (hr : r.GoesOn w r' w') :
    r'.Listens w'.bus heard := by
  cases hr with
  | alone hwork hid =>
    rw [← hid]
    exact h.work hwork
  | listening hwork hid hpeek =>
    rw [← hid]
    exact h.work hwork
  | @closed w₁ _ work rest id hwork hid hpeek hagain =>
    have hrest := handles_workingPoll work [] ((w₁.taken id).release id)
    rw [hagain] at hrest
    have hread : ((w₁.taken id).release id).bus.Agrees :=
      ((h.work hwork).agrees.act (.read id)).act (.drop id)
    exact ⟨hrest.bus.agrees hread, nofun, nofun⟩

/-- **What interrupts a race** lies in front in the listener's mailbox, and was handed out on the
interrupt channel since the race was started. -/
theorem of_event (h : r.Listens w.bus heard) {w₁ : World} {rest : Working β} {id : SubscriptionId}
    {e : Event Message} (hwork : r.work.poll w = (w₁, .pending rest)) (hid : r.interrupts = some id)
    (hpeek : w₁.peek id = .event e) :
    (∃ more, w.bus.inbox id = .event e :: more) ∧ e ∈ Event.on Channel.interrupt heard := by
  obtain ⟨inbox, htracks⟩ := (h.work hwork).mailbox id hid
  obtain ⟨more, rfl⟩ := htracks.of_event hpeek
  have hsame := h.subscription?_work hwork hid
  refine ⟨⟨more, ?_⟩, ?_⟩
  · exact Bus.inbox_of_subscription? (hsame.symm.trans htracks.mailbox)
  · rw [← htracks.account]
    exact List.mem_cons_self

end Listens

end Race

/-! ## A race in the world -/

/-- A race that is going on, and what has happened since it was started. -/
structure Heat (β : Type) where
  world : World
  race : Race β
  /-- The subscriptions that were there before, and those that others have made. -/
  theirs : List SubscriptionId
  /-- The events that have been handed out. -/
  heard : List (Event Message) := []

namespace Heat

def start (job : Job β) (w : World) : Heat β :=
  { world := (Race.start job w).2, race := (Race.start job w).1, theirs := w.bus.ids }

inductive Step (x : Heat β) : Heat β → Prop
  | look {r : Race β} {w : World} (h : x.race.poll x.world = (w, .pending r)) :
    Step x { x with world := w, race := r }
  | others {w : World} {acts : List (Bus.Act Message)} (hb : w.bus = x.world.bus.run acts)
    (ha : ∀ id ∈ x.race.holds, ∀ a ∈ acts, a.Avoids id) :
    Step x { x with
      world := w
      theirs := x.theirs ++ List.range' x.world.bus.nextId (w.bus.nextId - x.world.bus.nextId)
      heard := x.heard ++ x.world.bus.handed acts }

/-- What a race for the job comes to before it is over, from its start in any world. -/
inductive Reached (job : Job β) : Heat β → Prop
  | start {w : World} (hb : ∃ acts, w.bus = Bus.run {} acts) : Reached job (start job w)
  | step {x y : Heat β} (hx : Reached job x) (h : Step x y) : Reached job y

/-- What holds of every race that goes on. -/
structure Inv (job : Job β) (x : Heat β) : Prop where
  worked : Race.Worked job x.race.work
  listens : x.race.Listens x.world.bus x.heard
  owned : ∀ i ∈ x.world.bus.ids, i ∈ x.theirs ∨ i ∈ x.race.holds

variable {job : Job β} {x y : Heat β}

theorem inv_start (job : Job β) {w : World} (hw : w.bus.Agrees) : Inv job (start job w) := by
  refine ⟨.fresh, Race.listens_start job hw, ?_⟩
  intro i hi
  rw [show (start job w).world.bus = w.bus.subscribe (.channel Channel.interrupt) from
    Race.bus_listen w Channel.interrupt, Bus.mem_ids_subscribe] at hi
  rcases hi with hi | rfl
  · exact .inl hi
  · exact .inr List.mem_cons_self

theorem Inv.look (h : Inv job x) {r : Race β} {w : World}
    (hp : x.race.poll x.world = (w, .pending r)) : Inv job { x with world := w, race := r } := by
  have hgoes := Race.goesOn_of_poll hp
  have hhandles := x.race.handles_poll x.world
  rw [hp] at hhandles
  refine ⟨h.worked.looked hgoes.works, h.listens.goesOn hgoes, ?_⟩
  intro i hi
  rcases hhandles.bus.ids hi with hheld | ⟨hold, hnone⟩
  · exact .inr hheld
  · exact .inl ((h.owned i hold).resolve_right hnone)

theorem Inv.step (h : Inv job x) (hs : Step x y) : Inv job y := by
  cases hs with
  | look hp => exact h.look hp
  | @others w acts hb ha =>
    refine ⟨h.worked, ?_, ?_⟩
    · rw [hb]
      exact h.listens.others ha
    · intro i hi
      rw [hb] at hi ⊢
      rcases h.listens.agrees.mem_ids_run hi with hold | hnew
      · exact (h.owned i hold).imp_left fun hmem => List.mem_append_left _ hmem
      · exact .inl (List.mem_append_right _ hnew)

theorem inv_of_reached (h : Reached job x) : Inv job x := by
  induction h with
  | start hb =>
    obtain ⟨acts, hacts⟩ := hb
    exact inv_start job (hacts ▸ Bus.agrees_run acts)
  | step _ hs ih => exact ih.step hs

/-! ## A listener that is closed -/

/-- The listener has been closed, or the mark of the end is what it has next. -/
def Deaf (x : Heat β) : Prop :=
  ∀ id, x.race.interrupts = some id → ∃ more, x.world.bus.inbox id = .closed :: more

theorem Inv.peek_of_deaf (h : Inv job x) (hd : x.Deaf) {w : World} {rest : Working β}
    {id : SubscriptionId} (hwork : x.race.work.poll x.world = (w, .pending rest))
    (hid : x.race.interrupts = some id) : w.peek id = .closed := by
  obtain ⟨inbox, htracks⟩ := (h.listens.work hwork).mailbox id hid
  obtain ⟨more, hmore⟩ := hd id hid
  have hsame := h.listens.subscription?_work hwork hid
  have hinbox : inbox = .closed :: more := by
    rw [← hmore]
    exact (Bus.inbox_of_subscription? (hsame.symm.trans htracks.mailbox)).symm
  subst hinbox
  exact htracks.reading

theorem Inv.deaf_step (h : Inv job x) (hd : x.Deaf) (hs : Step x y) : y.Deaf := by
  cases hs with
  | look hp =>
    cases Race.goesOn_of_poll hp with
    | alone hwork hid => exact nofun
    | listening hwork hid hpeek => cases (h.peek_of_deaf hd hwork hid).symm.trans hpeek
    | closed hwork hid hpeek hagain => exact nofun
  | @others w acts hb ha =>
    intro id hid
    have hmem : id ∈ x.race.holds := by simp [Race.holds, show x.race.interrupts = some id from hid]
    obtain ⟨inbox, htracks⟩ := h.listens.mailbox id hid
    obtain ⟨ds, hds⟩ := htracks.run h.listens.agrees (ha id hmem)
    obtain ⟨more, hmore⟩ := hd id hid
    obtain rfl : inbox = .closed :: more := by
      rw [← hmore]
      exact (Bus.inbox_of_subscription? htracks.mailbox).symm
    refine ⟨more ++ ds, ?_⟩
    change w.bus.inbox id = _
    rw [hb]
    exact Bus.inbox_of_subscription? hds.mailbox

/-- Once its listener has been closed no interrupt ends a race. -/
theorem Inv.not_interrupted (h : Inv job x) (hd : x.Deaf) (e : Error) :
    (x.race.poll x.world).2 ≠ .ready (.error e) := by
  intro hp
  obtain ⟨w', hpoll⟩ : ∃ w', x.race.poll x.world = (w', .ready (.error e)) := ⟨_, Prod.ext rfl hp⟩
  cases Race.ends_of_poll hpoll with
  | interrupted hwork hid hpeek => cases (h.peek_of_deaf hd hwork hid).symm.trans hpeek

theorem Inv.not_interrupted_later (h : Inv job x) (hd : x.Deaf)
    (hy : Relation.ReflTransGen Step x y) (e : Error) :
    (y.race.poll y.world).2 ≠ .ready (.error e) := by
  have hlater : Inv job y ∧ y.Deaf := by
    induction hy with
    | refl => exact ⟨h, hd⟩
    | tail _ hs ih => exact ⟨ih.1.step hs, ih.1.deaf_step ih.2 hs⟩
  exact hlater.1.not_interrupted hlater.2 e

/-- **How a race returns** (module doc). -/
theorem Inv.returns (h : Inv job x) {w : World} {result : Except Error (Except Error β)}
    (hp : x.race.poll x.world = (w, .ready result)) :
    ((∃ v, result = .ok v ∧ x.race.Works x.world (.ready v)) ∨ result = .error .interrupted) ∧
    (result = .error .interrupted → ∃ id e more work u, x.race.interrupts = some id ∧
      x.world.bus.inbox id = .event e :: more ∧ e ∈ Event.on Channel.interrupt x.heard ∧
      x.race.work.poll x.world = (u, .pending work)) ∧
    ∀ i ∈ w.bus.ids, i ∈ x.theirs ∧ i ∉ x.race.holds := by
  have hends := Race.ends_of_poll hp
  refine ⟨?_, ?_, ?_⟩
  · cases result with
    | ok v => exact .inl ⟨v, rfl, hends.works⟩
    | error e =>
      cases hends with
      | interrupted hwork hid hpeek => exact .inr rfl
  · rintro rfl
    cases hends with
    | @interrupted u work id e hwork hid hpeek =>
      obtain ⟨⟨more, hinbox⟩, he⟩ := h.listens.of_event hwork hid hpeek
      exact ⟨id, e, more, work, u, hid, hinbox, he, hwork⟩
  · intro i hi
    have hhandles := x.race.handles_poll x.world
    rw [hp] at hhandles
    rcases hhandles.bus.ids hi with hnone | ⟨hold, hgone⟩
    · cases hnone
    · exact ⟨(h.owned i hold).resolve_right hgone, hgone⟩

end Heat

end

end Parley
