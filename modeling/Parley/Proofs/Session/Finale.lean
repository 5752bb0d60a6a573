import Parley.Proofs.Bus.Bystander
import Parley.Proofs.Session.Closing
import Parley.Proofs.Session.Deeds
import Parley.Proofs.Session.Loop

/-!
# How a session ends, for those who listen

A session minds its own subscriptions until it closes the bus (`Stage.Leads`). Before that it has
announced its end, and everything that was queued then, the announcement included, has been handed
out: it flushes from the announcement on, it leaves the flush only when nothing is pending
(`Stage.Cleared`), and only then does it close the bus.
-/

set_option autoImplicit false

namespace Parley

/-! ## The acts of a turn -/

/-- A deed is one act on the bus at most, and it hands nothing out. -/
theorem Deed.bus {p : Event Message → Prop} {w w' : World} (h : Deed p w w') :
    w'.bus = w.bus ∨ ∃ a, a ≠ .dispatch ∧ w'.bus = w.bus.act a := by
  cases h with
  | send o => exact .inr ⟨.publish ⟨o.channel, w.stamp o⟩, by simp, bus_send w o⟩
  | listen channel =>
    exact .inr ⟨.subscribe (.channel channel), by simp, (Schedule.roused_nudge _).bus⟩
  | taken id => exact .inr ⟨.read id, by simp, rfl⟩
  | release id => exact .inr ⟨.drop id, by simp, rfl⟩
  | connect h =>
    unfold Schedule.connect at h
    split at h
    · cases h
    · next bus hb =>
      cases h
      exact .inr ⟨.connect true, by simp, by rw [Bus.act, hb]⟩
  | detach => exact .inr ⟨.detach, by simp, bus_detach w⟩
  | closeAll => exact .inr ⟨.closeAll, by simp, bus_closeAll w⟩
  | abort task => exact .inl (w.abort_spec task).2.2.1
  | _ => exact .inl rfl

theorem Deeds.acts {p : Event Message → Prop} {w w' : World} (h : Deeds p w w') :
    ∃ acts, w'.bus = w.bus.run acts ∧ ∀ a ∈ acts, a ≠ .dispatch := by
  induction h with
  | refl => exact ⟨[], rfl, nofun⟩
  | tail _ h ih =>
    rcases h.bus with hsame | ⟨a, ha, hact⟩
    · exact hsame ▸ ih
    · exact hact ▸ Bus.exists_run_concat ha ih

namespace Stage

theorem acts_turn (stage : Stage) (w : World) :
    ∃ acts, (stage.turn w).1.bus = w.bus.run acts ∧ ∀ a ∈ acts, a ≠ .dispatch := by
  cases hchange : stage.change? with
  | none =>
    exact (deeds_turn (p := fun _ => True) (fun _ _ => trivial) hchange (fun _ _ => trivial) w).acts
  | some p =>
    obtain ⟨settings, hturn, -⟩ := settings_change hchange w
    exact ⟨[], by rw [hturn]; rfl, nofun⟩

/-! ## What a turn does to the mailboxes of others -/

/-- The stage has waited until nothing was pending, or is about to find that nothing is. -/
def Cleared (w : World) : Stage → Prop
  | disconnecting _ _ => True
  | flushing _ => w.isIdle = true
  | _ => False

def Announced (w : World) : Prop := ∃ e ∈ w.bus.backend.queue, e.channel = Channel.sessionExit

/-- What a turn from the stage comes to, for those who listen to the end of the session. -/
structure Leads (stage : Stage) (w : World) (led : Led) : Prop where
  bus : Bus.Minds stage.holds w.bus led.2.holds led.1.bus ∨
    led.1.bus = w.bus.closeAll ∧ stage.Cleared w ∧ led.2.holds = []
  flushing : ∀ outcome, led.2 = .flushing outcome →
    stage = .flushing outcome ∧ led.1.bus = w.bus ∨ Announced led.1
  disconnecting : ∀ task outcome, led.2 = .disconnecting task outcome → stage.Cleared w

variable {w : World} {stage : Stage}

theorem Leads.refl : Leads stage w (w, stage) where
  bus := .inl ⟨fun _ _ _ => rfl, fun _ hi => .inl hi⟩
  flushing outcome h := .inl ⟨h, rfl⟩
  disconnecting task outcome h := by
    subst h
    trivial

/-- The turn leads to a stage in which the end has not been announced. -/
theorem Leads.of_minds {led : Led} (h : Bus.Minds stage.holds w.bus led.2.holds led.1.bus)
    (hf : ∀ outcome, led.2 ≠ .flushing outcome)
    (hd : ∀ task outcome, led.2 ≠ .disconnecting task outcome) : Leads stage w led :=
  ⟨.inl h, fun outcome ho => absurd ho (hf outcome),
    fun task outcome ho => absurd ho (hd task outcome)⟩

/-- Somebody who does not hold `held` listens to the end of the session. -/
structure Watched (held : List SubscriptionId) (w : World) : Prop where
  agrees : w.bus.Agrees
  counted : w.bus.Counted
  listener : ∃ id sub, w.bus.subscription? id = some sub ∧
    sub.scope = .channel Channel.sessionExit ∧ id ∉ held

theorem Watched.handles {held held' : List SubscriptionId} {w' : World} (h : Watched held w)
    (hw : Handles held w held' w') : Watched held' w' := by
  obtain ⟨id, sub, hsub, hscope, hfree⟩ := h.listener
  have hlt : id < w.bus.nextId :=
    h.agrees.old _ ((Bus.subscription?_eq_some hsub).2 ▸ Bus.mem_roster_of_mem
      (Bus.subscription?_eq_some hsub).1)
  refine ⟨hw.bus.agrees h.agrees, hw.bus.counted h.counted, id, sub, ?_, hscope, fun hid => ?_⟩
  · exact (hw.bus.mailbox h.agrees hfree hlt).trans hsub
  · rcases hw.bus.fresh h.agrees hid with hid | hle
    · exact hfree hid
    · exact absurd hlt (Nat.not_lt.2 hle)

/-- The announcement is queued, so that the flush has something to wait for. -/
theorem announce_spec {held : List SubscriptionId} (h : Watched held w)
    (outcome : Except Error Unit) :
    announce outcome w = (w.send { channel := Channel.sessionExit }, .flushing outcome) ∧
      Announced (w.send { channel := Channel.sessionExit }) := by
  obtain ⟨id, sub, hsub, hscope, -⟩ := h.listener
  have hbus := bus_send w { channel := Channel.sessionExit }
  have hqueued := mem_queue_publish h.agrees
    (Bus.mem_roster_of_mem (Bus.subscription?_eq_some hsub).1)
    (e := ⟨Channel.sessionExit, w.stamp { channel := Channel.sessionExit }⟩)
    (by simp [hscope, Scope.covers])
  rw [← hbus] at hqueued
  refine ⟨?_, _, hqueued, rfl⟩
  -- what is queued is pending, so the flush does not go through at once
  have hbusy : (w.send { channel := Channel.sessionExit }).isIdle ≠ true := fun hidle => by
    have hcounted : (w.send { channel := Channel.sessionExit }).bus.Counted :=
      hbus ▸ h.counted.act (.publish _)
    rw [hcounted.queue_eq_nil hidle] at hqueued
    exact List.not_mem_nil hqueued
  rw [announce, flush, if_neg hbusy]

theorem leads_announce (h : Watched stage.holds w) {w' : World}
    (hw : Handles stage.holds w [] w') (outcome : Except Error Unit) :
    Leads stage w (announce outcome w') := by
  obtain ⟨hled, hannounced⟩ := announce_spec (h.handles hw) outcome
  rw [hled]
  refine ⟨.inl ?_, fun _ _ => .inr hannounced, nofun⟩
  exact (hw.trans (handles_send [] w' _)).bus.minds h.agrees

/-- A session whose loop has ended dismisses the task that completes lines, or announces its end. -/
theorem leads_endSession (h : Watched stage.holds w) {w' : World}
    (hw : Handles stage.holds w [] w') (responder : TaskId) (outcome : Except Error Unit) :
    Leads stage w (endSession responder outcome w') := by
  unfold endSession
  split
  · refine .of_minds ?_ nofun nofun
    rw [(w'.abort_spec responder).2.2.1]
    exact hw.bus.minds h.agrees
  · exact leads_announce h hw outcome

theorem leads_startSession (w : World) : Leads (.unstarted .session) w (startSession w) := by
  unfold startSession
  split
  · exact .of_minds ⟨fun _ _ _ => rfl, nofun⟩ nofun nofun
  · next w' hconnect =>
    refine .of_minds ⟨fun id hlt _ => ?_, nofun⟩ nofun nofun
    obtain rfl := Schedule.connect_spec hconnect
    have hbus : (Schedule.listen { w.spawnRole .dispatcher with
        bus := { w.bus with connected := true }, dispatcher := some w.nextTask }
        Channel.completionRequest).bus = _ := (Schedule.roused_nudge _).bus
    exact (congrArg (·.subscription? id) hbus).trans
      (Bus.subscription?_subscribe_of_ne _ _ (Nat.ne_of_gt hlt))

theorem leads_closed (hstage : stage.Cleared w) (outcome : Except Error Unit) :
    Leads stage w (closed outcome w) :=
  ⟨.inr ⟨bus_closeAll w, hstage, rfl⟩, nofun, nofun⟩

theorem leads_flush (w : World) (outcome : Except Error Unit) :
    Leads (.flushing outcome) w (flush outcome w) := by
  unfold flush
  split
  · next hidle =>
    have hcleared : (Stage.flushing outcome).Cleared w := hidle
    unfold disconnect
    split
    · refine ⟨.inl ⟨fun id _ _ => ?_, nofun⟩, nofun, fun _ _ _ => hcleared⟩
      rw [bus_detach]
      rfl
    · exact leads_closed hcleared outcome
  · exact .refl

/-- **What a turn of a session comes to**, if somebody listens to its end. -/
theorem leads_turn (h : stage.InLoop) (hw : Watched stage.holds w) :
    Leads stage w (stage.turn w) := by
  rcases h with rfl | ⟨r, hruns⟩ | hclosing
  · exact leads_startSession w
  · rcases goes_turn hruns w with ⟨hruns', hhandles⟩ | ⟨w', hhandles, hled⟩
    · refine .of_minds (hhandles.bus.minds hw.agrees) (fun outcome ho => ?_)
        fun task outcome ho => ?_
      all_goals
        rw [ho] at hruns'
        exact hruns'
    · rw [hled]
      exact leads_endSession hw hhandles r _
  · cases stage with
    | dismissing responder outcome =>
      simp only [turn]
      split
      · exact .refl
      · exact leads_announce hw .rest outcome
    | flushing outcome => exact leads_flush w outcome
    | disconnecting task outcome =>
      simp only [turn]
      split
      · exact .refl
      · have hcleared : (Stage.disconnecting task outcome).Cleared w := trivial
        exact leads_closed hcleared outcome
    | done outcome => exact .refl
    | _ => cases hclosing

end Stage

end Parley
