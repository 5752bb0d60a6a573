import Parley.Proofs.Session.Deeds
import Parley.Proofs.Terminal.Replies

/-!
# What a turn does to the bus

Whatever a task of a session does in its turn, the bus afterwards is the bus after a list of acts,
and the commands are the same (`Stage.calls_turn`). This is so for every step of a world, whoever
takes it (`calls_step`), and so everything that is known of all runs of a bus is known of the bus of
a world.
-/

set_option autoImplicit false

namespace Parley

/-- One world comes from another by acts on the bus, and has the same commands. -/
structure Calls (w w' : World) : Prop where
  bus : ∃ acts, w'.bus = w.bus.run acts
  registry : w'.shared.registry = w.shared.registry

namespace Calls

theorem refl (w : World) : Calls w w := ⟨⟨[], rfl⟩, rfl⟩

theorem trans {w w' w'' : World} (h : Calls w w') (h' : Calls w' w'') : Calls w w'' := by
  obtain ⟨⟨acts, hb⟩, hr⟩ := h
  obtain ⟨⟨acts', hb'⟩, hr'⟩ := h'
  exact ⟨⟨acts ++ acts', by rw [hb', hb, Bus.run_append]⟩, hr'.trans hr⟩

/-- The bus is left alone. -/
theorem of_same {w w' : World} (hb : w'.bus = w.bus) (hr : w'.shared.registry = w.shared.registry) :
    Calls w w' := ⟨⟨[], hb⟩, hr⟩

/-- One act, and tasks that are roused by it. -/
theorem of_act {w w' : World} (a : Bus.Act Message)
    (h : Schedule.Roused { w with bus := w.bus.act a } w') : Calls w w' :=
  ⟨⟨[a], h.bus⟩, by rw [h.same]⟩

end Calls

/-! ## Deeds -/

section
variable (w : World)

theorem calls_send (o : Outgoing) : Calls w (w.send o) := by
  have hstamped : Calls w { w with stamped := w.stamped + 1 } := .of_same rfl rfl
  exact hstamped.trans (.of_act (.publish ⟨o.channel, w.stamp o⟩) (Schedule.roused_nudge _))

theorem calls_abort (task : TaskId) : Calls w (w.abort task) := by
  unfold Schedule.abort
  split
  · have h := Schedule.roused_rouse (w.markCancelled task) task
    exact .of_same h.bus (by rw [h.same]; rfl)
  · exact .refl w

theorem calls_detach : Calls w w.detach := by
  have h : Calls w { w with bus := w.bus.detach, dispatcher := none } := ⟨⟨[.detach], rfl⟩, rfl⟩
  unfold Schedule.detach
  split
  · exact h.trans (calls_abort _ _)
  · exact h

theorem calls_connect {w' : World} (h : Schedule.connect w = .ok w') : Calls w w' := by
  unfold Schedule.connect at h
  split at h
  · cases h
  · next bus hb =>
    cases h
    exact ⟨⟨[.connect true], by rw [Bus.run_cons, Bus.run_nil, Bus.act, hb]⟩, rfl⟩

end

variable {p : Event Message → Prop} {w w' : World}

theorem Deed.calls (h : Deed p w w') : Calls w w' := by
  cases h with
  | send o => exact calls_send w o
  | listen channel => exact .of_act (.subscribe (.channel channel)) (Schedule.roused_nudge _)
  | taken id => exact .of_act (.read id) (.refl _)
  | release id => exact .of_act (.drop id) (.refl _)
  | connect h => exact calls_connect w h
  | detach => exact calls_detach w
  | closeAll => exact .of_act .closeAll (Schedule.roused_signals _ _)
  | abort task => exact calls_abort w task
  | _ => exact .of_same rfl rfl

theorem Deeds.calls (h : Deeds p w w') : Calls w w' := by
  induction h with
  | refl => exact .refl w
  | tail _ h ih => exact ih.trans h.calls

/-! ## Every step -/

/-- Whatever a session does in its turn, it acts on the bus, and the commands are the same. -/
theorem Stage.calls_turn (stage : Stage) (w : World) : Calls w (stage.turn w).1 := by
  cases hchange : stage.change? with
  | none =>
    exact (deeds_turn (p := fun _ => True) (fun _ _ => trivial) hchange (fun _ _ => trivial) w).calls
  | some change =>
    obtain ⟨settings, hturn, -⟩ := settings_change hchange w
    rw [hturn]
    exact .of_same rfl rfl

theorem Terminal.calls_turn (t : Terminal) (w : World) : Calls w (t.turn w).1 := by
  obtain ⟨⟨⟨acts, hbus, -⟩, -, hshared⟩, -⟩ := t.turns_turn w
  exact ⟨⟨acts, hbus⟩, by rw [hshared]⟩

theorem calls_errandTurn (p : World × Poll (Except Error Message) (Working Message)) :
    Calls p.1 (errandTurn p).1 := by
  unfold errandTurn
  split <;> exact .refl _

theorem calls_raceTurn (p : World × Poll (Except Error (Except Error Value)) (Race Value)) :
    Calls p.1 (raceTurn p).1 := by
  unfold raceTurn
  split <;> exact .refl _

theorem calls_activityTurn (a : Activity) (w : World) : Calls w (a.turn w).1 := by
  have hany : ∀ e : Event Message, (fun _ => True) e := fun _ => trivial
  cases a with
  | errand work => exact (deeds_workingPoll hany work w).calls.trans (calls_errandTurn _)
  | raceUnstarted job =>
    have hstarted : Deeds (fun _ => True) w (Race.start job w).2 := .listen Channel.interrupt
    have hpolled : Deeds (fun _ => True) w ((Race.start job w).1.poll (Race.start job w).2).1 :=
      hstarted.trans (deeds_racePoll hany _ _)
    exact hpolled.calls.trans (calls_raceTurn _)
  | race r => exact (deeds_racePoll hany r w).calls.trans (calls_raceTurn _)
  | responder requests => exact (deeds_responderTurn hany requests w).calls
  | session stage => exact stage.calls_turn w
  | terminal t => exact t.calls_turn w
  | _ => exact .refl w

theorem calls_remove (w : World) (task : TaskId) : Calls w (w.remove task) := by
  have h := Schedule.roused_signal { w with tasks := w.tasks.filter (·.id != task) } (.ended task)
  exact .of_same h.bus (congrArg (·.shared.registry) h.same)

theorem calls_settleTurn (task : TaskId) (p : World × Progress Activity) :
    Calls p.1 (Schedule.settleTurn task p) := by
  obtain ⟨w, progress⟩ := p
  cases progress with
  | finish => exact calls_remove w task
  | _ => exact .of_same rfl rfl

theorem calls_endTurn (w : World) (t : Task Activity) : Calls w (w.endTurn t) := by
  unfold Schedule.endTurn
  split
  · exact calls_remove w _
  · exact (Deeds.releaseAll (p := fun _ => True) _).calls.trans (calls_remove _ _)

theorem calls_dispatchTurn (w : World) (task : TaskId) : Calls w (w.dispatchTurn task) := by
  cases hq : w.bus.backend.queue with
  | nil => rw [Schedule.dispatchTurn_of_rest hq]; exact .refl w
  | cons e rest => exact .of_act .dispatch (Schedule.dispatchTurn_spec hq task).1

/-- Whoever takes a step, it is acts on the bus, and the commands are the same. -/
theorem calls_step (w : World) : Calls w (w.step program) := by
  unfold Schedule.step
  split
  · exact .refl w
  · next task rest _ =>
    have hpop : Calls w { w with ready := rest } := .of_same rfl rfl
    dsimp only
    split
    · exact hpop
    · split
      · exact hpop.trans (calls_endTurn _ _)
      · split
        · exact hpop.trans (calls_dispatchTurn _ _)
        · exact (hpop.trans (calls_activityTurn _ _)).trans (calls_settleTurn _ _)

end Parley
