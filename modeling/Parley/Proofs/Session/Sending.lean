import Parley.Proofs.Bus.Publishing
import Parley.Proofs.Session.Deeds

/-!
# What is sent

What a task does to the world, as publishing: a message that is sent is published, and to listen, to
read and to give a subscription back publishes nothing. `Sends` says of a whole turn that it has
sent these messages and left alone what the tasks share, and a list of deeds publishes nothing but
events that it may (`Deeds.publishes`).
-/

set_option autoImplicit false

namespace Parley

namespace Bus.Publishes

theorem send (w : World) (o : Outgoing) :
    Publishes [⟨o.channel, w.stamp o⟩] w.bus (w.send o).bus := by
  rw [show (w.send o).bus = w.bus.act (.publish ⟨o.channel, w.stamp o⟩) from
    (Schedule.roused_nudge _).bus]
  exact act (.publish _) nofun

theorem listen (w : World) (channel : String) : Publishes [] w.bus (w.listen channel).bus := by
  rw [show (w.listen channel).bus = w.bus.act (.subscribe (.channel channel)) from
    (Schedule.roused_nudge _).bus]
  exact act (.subscribe _) nofun

theorem taken (w : World) (id : SubscriptionId) : Publishes [] w.bus (w.taken id).bus :=
  act (.read id) nofun

theorem release (w : World) (id : SubscriptionId) : Publishes [] w.bus (w.release id).bus :=
  act (.drop id) nofun

theorem releaseAll (w : World) (ids : List SubscriptionId) :
    Publishes [] w.bus (w.releaseAll ids).bus := by
  induction ids generalizing w with
  | nil => exact .refl
  | cons id ids ih => exact (release w id).trans (ih _)

end Bus.Publishes

/-- The message as it is sent in this world: its identifier tells how many have been sent before, and
its time is the clock's. -/
def Outgoing.sentIn (o : Outgoing) (w : World) : Message :=
  { id := .ofSerial w.stamped
    channel := o.channel
    source := o.source
    data := o.data
    extra := o.extra
    createdAt := .ofMillis w.clock }

variable {ms ms' : List Message} {w w' w'' : World}

/-- The messages have been published, and nothing else. -/
def Published (ms : List Message) (w w' : World) : Prop :=
  Bus.Publishes (ms.map fun m => ⟨m.channel, m⟩) w.bus w'.bus

/-- If all that has been published is on one channel, nothing else has been published. -/
theorem Published.unique (h : Published ms w w') (h' : Published ms' w w')
    (hw : w.bus.Agrees) {c : String} (hms : ∀ m ∈ ms, m.channel = c) : ms' = ms := by
  have hevents := Bus.Publishes.unique h h' hw (c := c) (by
    intro e he
    obtain ⟨m, hm, rfl⟩ := List.mem_map.1 he
    exact hms m hm)
  have hpayload : ∀ ms : List Message,
      (ms.map fun m => (⟨m.channel, m⟩ : Event Message)).map (·.payload) = ms := by
    intro ms
    rw [List.map_map]
    exact List.map_id ms
  rw [← hpayload ms', hevents, hpayload]

/-- The messages have been sent, and nothing else of what the tasks share has changed. -/
structure Sends (ms : List Message) (w w' : World) : Prop where
  publishes : Published ms w w'
  shared : w'.shared = w.shared

namespace Sends

theorem refl : Sends [] w w := ⟨.refl, rfl⟩

theorem trans (h : Sends ms w w') (h' : Sends ms' w' w'') : Sends (ms ++ ms') w w'' := by
  refine ⟨?_, h'.shared.trans h.shared⟩
  rw [Published, List.map_append]
  exact h.publishes.trans h'.publishes

theorem send (w : World) (o : Outgoing) : Sends [o.sentIn w] w (w.send o) :=
  ⟨.send w o, (Schedule.roused_nudge _).shared⟩

theorem releaseAll (w : World) (ids : List SubscriptionId) : Sends [] w (w.releaseAll ids) := by
  refine ⟨.releaseAll w ids, ?_⟩
  induction ids generalizing w with
  | nil => rfl
  | cons id ids ih => exact ih (w.release id)

theorem read (w : World) (id : SubscriptionId) : Sends [] w ((w.taken id).release id) :=
  ⟨(Bus.Publishes.taken w id).trans (.release _ id), rfl⟩

theorem listen (w : World) (channel : String) : Sends [] w (w.listen channel) :=
  ⟨.listen w channel, (Schedule.roused_nudge _).shared⟩

theorem closeAll (w : World) : Sends [] w w.closeAll := by
  have hroused : Schedule.Roused { w with bus := w.bus.act .closeAll } w.closeAll :=
    Schedule.roused_signals _ _
  refine ⟨?_, hroused.shared⟩
  rw [Published, hroused.bus]
  exact .act .closeAll nofun

theorem abort (w : World) (task : TaskId) : Sends [] w (w.abort task) := by
  unfold Schedule.abort
  split
  · have hroused := Schedule.roused_rouse (w.markCancelled task) task
    refine ⟨?_, hroused.shared⟩
    rw [Published, hroused.bus]
    exact .refl
  · exact .refl

theorem detach (w : World) : Sends [] w w.detach := by
  have hdetached : Sends [] w { w with bus := w.bus.detach, dispatcher := none } :=
    ⟨.act .detach nofun, rfl⟩
  unfold Schedule.detach
  split
  · exact hdetached.trans (abort _ _)
  · exact hdetached

theorem flush (outcome : Except Error Unit) (w : World) : Sends [] w (Stage.flush outcome w).1 := by
  unfold Stage.flush Stage.disconnect
  split
  · split
    · exact detach w
    · exact closeAll w
  · exact .refl

theorem announce (outcome : Except Error Unit) (w : World) :
    ∃ ms, (∀ m ∈ ms, m.channel = Channel.sessionExit) ∧
      Sends ms w (Stage.announce outcome w).1 := by
  have hsent := Sends.send w { channel := Channel.sessionExit }
  refine ⟨_, fun m hm => ?_, hsent.trans (flush outcome _)⟩
  rw [List.append_nil] at hm
  rw [List.mem_singleton.1 hm]
  rfl

/-- At its end a session sends the announcement of its end at most. -/
theorem endSession (responder : TaskId) (outcome : Except Error Unit) (w : World) :
    ∃ ms, (∀ m ∈ ms, m.channel = Channel.sessionExit) ∧
      Sends ms w (Stage.endSession responder outcome w).1 := by
  unfold Stage.endSession
  split
  · exact ⟨[], nofun, abort w responder⟩
  · exact announce outcome w

end Sends

/-! ## What deeds publish -/

theorem Deed.publishes {p : Event Message → Prop} {w w' : World} (h : Deed p w w') :
    ∃ es, Bus.Publishes es w.bus w'.bus ∧ ∀ e ∈ es, p e := by
  have hnone : ∀ {b : Bus Message}, Bus.Publishes [] w.bus b →
      ∃ es, Bus.Publishes es w.bus b ∧ ∀ e ∈ es, p e := fun hb => ⟨[], hb, nofun⟩
  cases h with
  | send o ho => exact ⟨_, .send w o, fun e he => List.mem_singleton.1 he ▸ ho⟩
  | listen channel => exact hnone (.listen w channel)
  | taken id => exact hnone (.taken w id)
  | release id => exact hnone (.release w id)
  | connect h =>
    have hact : w.bus.act (.connect true) = w'.bus := by
      unfold Schedule.connect at h
      split at h
      · cases h
      · next bus hb =>
        cases h
        rw [Bus.act, hb]
    exact hnone (hact ▸ Bus.Publishes.act (.connect true) fun hsame => by cases hsame)
  | detach => exact hnone (Sends.detach w).publishes
  | closeAll => exact hnone (Sends.closeAll w).publishes
  | abort task => exact hnone (Sends.abort w task).publishes
  | _ => exact hnone .refl

theorem Deeds.publishes {p : Event Message → Prop} {w w' : World} (h : Deeds p w w') :
    ∃ es, Bus.Publishes es w.bus w'.bus ∧ ∀ e ∈ es, p e := by
  induction h with
  | refl => exact ⟨[], .refl, nofun⟩
  | tail _ h ih =>
    obtain ⟨es, hes, hp⟩ := ih
    obtain ⟨es', hes', hp'⟩ := h.publishes
    refine ⟨es ++ es', hes.trans hes', fun e he => ?_⟩
    exact (List.mem_append.1 he).elim (hp e) (hp' e)

end Parley
