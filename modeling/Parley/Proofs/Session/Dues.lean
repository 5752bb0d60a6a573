import Parley.Proofs.Bus.Delivery
import Parley.Proofs.Session.Deeds
import Parley.Proofs.Session.Exchange
import Parley.Proofs.Session.Handling

/-!
# What a turn leaves due

Whoever is due a turn stays due while others take theirs, and the dispatcher is due whenever
something is queued for it. `Dues` says so of two worlds; every deed keeps it (`Deed.dues`), and so
does every turn of a session (`Stage.dues_turn`). A task that goes on after its turn keeps it too
(`GoesOnAt`).
-/

set_option autoImplicit false

namespace Parley

open Exchange (Stands)

theorem Schedule.kept_abort (w : World) (task : TaskId) {i : TaskId} (hi : i ∈ w.ready) :
    i ∈ (w.abort task).ready := by
  unfold Schedule.abort
  split
  · exact (Schedule.roused_rouse _ task).kept i hi
  · exact hi

/-- Whoever was due a turn still is, and the dispatcher is when there is something to hand out. -/
structure Dues (w w' : World) : Prop where
  nudged : w.Nudged → w'.Nudged
  kept : ∀ i ∈ w.ready, i ∈ w'.ready

namespace Dues

variable {w w' w'' : World}

theorem refl (w : World) : Dues w w := ⟨id, fun _ hi => hi⟩

theorem trans (h : Dues w w') (h' : Dues w' w'') : Dues w w'' :=
  ⟨fun hw => h'.nudged (h.nudged hw), fun i hi => h'.kept i (h.kept i hi)⟩

/-- Tasks have been roused, and nothing has been queued for handing out. -/
theorem of_roused {b : Bus Message} (hq : b.backend.queue = w.bus.backend.queue)
    (h : Schedule.Roused { w with bus := b } w') : Dues w w' := by
  refine ⟨?_, h.kept⟩
  intro hw d hd hne
  rw [h.bus, hq] at hne
  exact h.kept d (hw d (h.dispatcher ▸ hd) hne)

/-- A publication or a subscription nudges the dispatcher. -/
theorem of_nudge {stamped : Nat} {b : Bus Message} :
    Dues w (Schedule.nudge { w with stamped, bus := b }) := by
  refine ⟨fun _ => Schedule.nudged_nudge _, fun i hi => ?_⟩
  exact (Schedule.roused_nudge { w with stamped, bus := b }).kept i hi

end Dues

theorem Deed.dues {p : Event Message → Prop} {w w' : World} (h : Deed p w w') : Dues w w' := by
  cases h with
  | send o => exact .of_nudge
  | listen channel => exact .of_nudge
  | taken id => exact .of_roused (congrArg Backend.queue (Bus.backend_read w.bus id)) (.refl _)
  | release id => exact .of_roused (Bus.release_lists w.bus id).1 (.refl _)
  | connect h =>
    obtain rfl := Schedule.connect_spec h
    refine ⟨?_, fun i hi => List.mem_append_left _ hi⟩
    rintro - d hd -
    cases hd
    exact List.mem_append_right _ List.mem_cons_self
  | detach =>
    have hnone : w.detach.dispatcher = none := by
      unfold Schedule.detach
      split
      · exact (Schedule.abort_spec _ _).2.2.2.1
      · rfl
    refine ⟨?_, ?_⟩
    · intro _ d hd
      cases hnone.symm.trans hd
    · intro i hi
      unfold Schedule.detach
      split
      · exact Schedule.kept_abort _ _ hi
      · exact hi
  | closeAll =>
    exact .of_roused (congrArg Backend.queue (Bus.backend_closeAll w.bus))
      (Schedule.roused_signals _ _)
  | attend requests =>
    refine ⟨?_, fun i hi => List.mem_append_left _ hi⟩
    intro hw d hd hq
    exact List.mem_append_left _ (hw d hd hq)
  | abort task =>
    refine ⟨?_, fun i hi => Schedule.kept_abort w task hi⟩
    intro hw d hd hq
    obtain ⟨-, -, hbus, hdispatcher, -⟩ := w.abort_spec task
    rw [hbus] at hq
    exact Schedule.kept_abort w task (hw d (hdispatcher ▸ hd) hq)
  | remember prompt => exact ⟨id, fun _ hi => hi⟩
  | forget => exact ⟨id, fun _ hi => hi⟩

theorem Deeds.dues {p : Event Message → Prop} {w w' : World} (h : Deeds p w w') : Dues w w' := by
  induction h with
  | refl => exact .refl w
  | tail _ h ih => exact ih.trans h.dues

theorem Stage.dues_turn (stage : Stage) (w : World) : Dues w (stage.turn w).1 := by
  cases hchange : stage.change? with
  | none =>
    exact (deeds_turn (p := fun _ => True) (fun _ _ => trivial) hchange (fun _ _ => trivial) w).dues
  | some p =>
    obtain ⟨settings, hturn, -⟩ := settings_change hchange w
    rw [hturn]
    exact ⟨id, fun _ hi => hi⟩

/-! ## Going on after a turn -/

/-- The task goes on at `a`, in the world `w` that its turn has left. -/
structure GoesOnAt (i : TaskId) (a : Activity) (w w' : World) : Prop where
  bus : w'.bus = w.bus
  shared : w'.shared = w.shared
  dispatcher : w'.dispatcher = w.dispatcher
  task? : ∀ j, w'.task? j = (w.place i a).task? j
  dues : Dues w w'

theorem goesOnAt_settleTurn {led : World × Progress Activity} {a : Activity}
    (h : led.2 = .wait a ∨ led.2 = .again a) (i : TaskId) :
    GoesOnAt i a led.1 (Schedule.settleTurn i led) := by
  obtain ⟨hbus, hshared, htask⟩ := Schedule.settleTurn_spec h i
  obtain ⟨w, progress⟩ := led
  rcases h with rfl | rfl
  · exact ⟨hbus, hshared, rfl, htask, id, fun _ hj => hj⟩
  · refine ⟨hbus, hshared, rfl, htask, ?_, fun j hj => List.mem_cons_of_mem _ hj⟩
    intro hw d hd hq
    exact List.mem_cons_of_mem _ (hw d hd hq)

variable {w : World} {i : TaskId} {rest : List TaskId}

theorem goesOnAt_session {stage : Stage} (hready : w.ready = i :: rest)
    (hi : Stands w i (.session stage)) :
    let led := stage.turn { w with ready := rest }
    GoesOnAt i (.session led.2) led.1 (w.step program) := by
  intro led
  have hstep : w.step program = Schedule.settleTurn i (sessionTurn led) :=
    Schedule.step_own hready hi
  rw [hstep]
  exact goesOnAt_settleTurn (sessionTurn_progress led) i

theorem goesOnAt_responder {requests : SubscriptionId} {a : Activity} (hready : w.ready = i :: rest)
    (hi : Stands w i (.responder requests)) :
    let led := responderTurn requests { w with ready := rest }
    led.2 = .wait a ∨ led.2 = .again a → GoesOnAt i a led.1 (w.step program) := by
  intro led hprogress
  have hstep : w.step program = Schedule.settleTurn i led := Schedule.step_own hready hi
  rw [hstep]
  exact goesOnAt_settleTurn hprogress i

end Parley
