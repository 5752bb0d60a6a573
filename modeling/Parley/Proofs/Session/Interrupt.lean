import Parley.Proofs.Session.Finale
import Parley.Proofs.Session.Race
import Parley.Proofs.Session.Visit

/-!
# Responses that are cut short

A session races every response against an interrupt. A `Chronicle` is a session with a record of its
turns and of what has been done on the bus. A response is cut short by an interrupt that was handed
out during the response, so every such turn is paid for by an interrupt of its own
(`Chronicle.Paid`). `interrupt_race` puts together how a race returns and what that means for a
session.
-/

set_option autoImplicit false

namespace Parley

/-! ## The responses of a session -/

/-- The race was lost to an interrupt. -/
def Poll.isInterrupted {α β : Type} : Poll (Except Error α) β → Bool
  | .ready (.error .interrupted) => true
  | _ => false

/-- The turn finds that an interrupt has cut the response short. -/
def Visit.cutShort (v : Visit) : Bool :=
  match v.stage with
  | .prompting prompt _ =>
    let started := Race.start (v.world.shared.engine.respond v.world.shared.settings prompt) v.world
    (started.1.poll started.2).2.isInterrupted
  | .racing race _ => (race.poll v.world).2.isInterrupted
  | _ => false

namespace Stage

/-- A response is raced against an interrupt. -/
def isRacing : Stage → Bool
  | racing _ _ => true
  | _ => false

theorem isRacing_of_isClosing {stage : Stage} (h : stage.isClosing = true) :
    stage.isRacing = false := by
  cases stage with
  | racing race responder => cases h
  | _ => rfl

section
variable (w : World)

theorem isRacing_endSession (responder : TaskId) (outcome : Except Error Unit) :
    (endSession responder outcome w).2.isRacing = false :=
  isRacing_of_isClosing (isClosing_endSession responder outcome w)

theorem isRacing_raced (responder : TaskId) (result : Except Error (Except Error Unit)) :
    (raced responder result w).2.isRacing = false := by
  unfold raced
  split
  · rfl
  · split
    · exact isRacing_endSession _ _ _
    · rfl
  · rfl
  · exact isRacing_endSession _ _ _

theorem isRacing_takePrompt (taker : PromptTaker) (prompt : Except Error String) :
    (takePrompt taker prompt w).2.isRacing = false := by
  unfold takePrompt
  split
  · rfl
  · split <;> rfl
  · exact isRacing_endSession _ _ _

theorem isRacing_commandDone (caller : CommandCaller) (result : Except Error Unit) :
    (commandDone caller result w).2.isRacing = false := by
  unfold commandDone
  split
  · rfl
  · rfl
  · split
    · exact isRacing_takePrompt w _ _
    · rfl

theorem isRacing_command (caller : CommandCaller) (rest : Script) :
    (command caller rest w).2.isRacing = false := by
  cases rest with
  | finish => exact isRacing_commandDone w _ _
  | fail e => exact isRacing_commandDone w _ _
  | change setting value next =>
    simp only [command]
    split <;> rfl
  | _ => rfl

theorem isRacing_useLine (use : LineUse) (line : Except Error String) :
    (useLine use line w).2.isRacing = false := by
  unfold useLine
  split
  · exact isRacing_takePrompt w _ _
  · split
    · rfl
    · exact isRacing_takePrompt w _ _
  · exact isRacing_commandDone w _ _
  · split <;> rfl
  · exact isRacing_commandDone w _ _
  · rfl
  · rfl
  · split <;> rfl
  · rfl

theorem isRacing_start (target : Target) : (start target w).2.isRacing = false := by
  cases target with
  | session =>
    simp only [start, startSession]
    split <;> rfl
  | response prompt =>
    simp only [start, answered]
    split <;> rfl
  | _ => rfl

/-- Only a prompt that is handed to the engine starts a race. -/
theorem isRacing_turn {stage : Stage} (hp : ∀ prompt r, stage ≠ .prompting prompt r)
    (hr : ∀ race r, stage ≠ .racing race r) : (stage.turn w).2.isRacing = false := by
  cases stage with
  | unstarted target => exact isRacing_start w target
  | asking plain use => rfl
  | awaitingLine reply use =>
    simp only [turn]
    split
    · rfl
    · exact isRacing_useLine _ _ _
    · exact isRacing_useLine _ _ _
  | commanding rest caller => exact isRacing_command w caller rest
  | prompting prompt responder => exact absurd rfl (hp prompt responder)
  | responding work =>
    simp only [turn, answered]
    split <;> rfl
  | racing race responder => exact absurd rfl (hr race responder)
  | _ => exact isRacing_of_isClosing (isClosing_turn rfl w)

end

end Stage

/-- The turns that the task of a session has taken, everything that has been done on the bus since
its beginning, where the session stands, and the world. Others do not read or drop what the session
holds. -/
inductive Chronicle : List Visit → List (Bus.Act Message) → Stage → World → Prop
  | start {w : World} {acts : List (Bus.Act Message)} (hb : w.bus = Bus.run {} acts) :
    Chronicle [] acts (.unstarted .session) w
  | turn {log : List Visit} {acts more : List (Bus.Act Message)} {stage : Stage} {w : World}
    (h : Chronicle log acts stage w) (hb : (stage.turn w).1.bus = w.bus.run more)
    (ha : .dispatch ∉ more) :
    Chronicle (log ++ [⟨stage, w⟩]) (acts ++ more) (stage.turn w).2 (stage.turn w).1
  | others {log : List Visit} {acts more : List (Bus.Act Message)} {stage : Stage} {w w' : World}
    (h : Chronicle log acts stage w) (hb : w'.bus = w.bus.run more)
    (ha : ∀ id ∈ stage.holds, ∀ a ∈ more, a.Avoids id) : Chronicle log (acts ++ more) stage w'

namespace Chronicle

/-- The responses that were cut short. -/
def cuts (log : List Visit) : Nat := (log.filter (·.cutShort)).length

/-- The interrupts that have been handed out. -/
def signals (acts : List (Bus.Act Message)) : Nat :=
  (Event.on Channel.interrupt (Bus.handed {} acts)).length

/-- Every response that was cut short has had an interrupt of its own, and not one of those that have
been handed out during the race that is going on. -/
def Paid (log : List Visit) (acts : List (Bus.Act Message)) (b : Bus Message) : Stage → Prop
  | .racing race _ => ∃ heard, race.Listens b heard ∧
    cuts log + (Event.on Channel.interrupt heard).length ≤ signals acts
  | _ => cuts log ≤ signals acts

variable {log : List Visit} {acts more : List (Bus.Act Message)} {stage : Stage} {w w' : World}

theorem Paid.le {b : Bus Message} (h : Paid log acts b stage) : cuts log ≤ signals acts := by
  cases stage with
  | racing race responder =>
    obtain ⟨heard, -, hle⟩ := h
    omega
  | _ => exact h

theorem paid_of_le {b : Bus Message} (hs : stage.isRacing = false) (h : cuts log ≤ signals acts) :
    Paid log acts b stage := by
  cases stage with
  | racing race responder => cases hs
  | _ => exact h

theorem cuts_concat (log : List Visit) (v : Visit) :
    cuts (log ++ [v]) = cuts log + if v.cutShort then 1 else 0 := by
  rw [cuts, List.filter_append, List.length_append, cuts]
  cases hv : v.cutShort <;> simp [hv]

theorem signals_append (xs ys : List (Bus.Act Message)) :
    signals (xs ++ ys) =
      signals xs + (Event.on Channel.interrupt ((Bus.run {} xs).handed ys)).length := by
  rw [signals, Bus.handed_append, Event.on_append, List.length_append, signals]

theorem signals_of_no_dispatch (xs : List (Bus.Act Message)) (ha : .dispatch ∉ more) :
    signals (xs ++ more) = signals xs := by
  rw [signals_append, Bus.handed_of_no_dispatch ha]
  rfl

theorem Paid.others (h : Paid log acts w.bus stage) (hw : w.bus = Bus.run {} acts)
    (ha : ∀ id ∈ stage.holds, ∀ a ∈ more, a.Avoids id) :
    Paid log (acts ++ more) (w.bus.run more) stage := by
  have hsignals := signals_append acts more
  rw [← hw] at hsignals
  cases stage with
  | racing race responder =>
    obtain ⟨heard, hlistens, hle⟩ := h
    refine ⟨heard ++ w.bus.handed more, hlistens.others ha, ?_⟩
    rw [Event.on_append, List.length_append]
    omega
  | _ =>
    have hle := h.le
    simp only [Paid]
    omega

/-- A look at a race: if it was lost, one of the interrupts that were handed out pays for that. -/
theorem paid_race {race : Race Unit} {responder : TaskId} {heard : List (Event Message)} {n : Nat}
    (h : race.Listens w.bus heard)
    (hle : n + (Event.on Channel.interrupt heard).length ≤ signals acts)
    (hlog : cuts log = n + if (race.poll w).2.isInterrupted then 1 else 0) :
    Paid log acts (Stage.race responder (race.poll w)).1.bus
      (Stage.race responder (race.poll w)).2 := by
  rcases race.poll_cases w with ⟨result, w', hpoll, hends⟩ | ⟨race', w', hpoll, hgoes⟩
  · rw [hpoll] at hlog ⊢
    refine paid_of_le (Stage.isRacing_raced _ _ _) ?_
    cases hends with
    | interrupted hwork hid hpeek =>
      obtain ⟨-, hmem⟩ := h.of_event hwork hid hpeek
      have hpos := List.length_pos_of_mem hmem
      simp only [Poll.isInterrupted, if_true] at hlog
      omega
    | _ =>
      simp only [Poll.isInterrupted, Bool.false_eq_true, if_false] at hlog
      omega
  · rw [hpoll] at hlog ⊢
    refine ⟨heard, h.goesOn hgoes, ?_⟩
    simp only [Poll.isInterrupted, Bool.false_eq_true, if_false] at hlog
    omega

theorem Paid.turn (h : Paid log acts w.bus stage) (hw : w.bus.Agrees) (ha : .dispatch ∉ more) :
    Paid (log ++ [⟨stage, w⟩]) (acts ++ more) (stage.turn w).1.bus (stage.turn w).2 := by
  have hsignals := signals_of_no_dispatch acts ha
  have hcuts := cuts_concat log ⟨stage, w⟩
  by_cases hp : ∃ prompt r, stage = .prompting prompt r
  · obtain ⟨prompt, r, rfl⟩ := hp
    have hle : cuts log + 0 ≤ signals (acts ++ more) := by
      rw [hsignals]
      exact h.le
    exact paid_race (Race.listens_start _ hw) hle hcuts
  · by_cases hr : ∃ race r, stage = .racing race r
    · obtain ⟨race, r, rfl⟩ := hr
      obtain ⟨heard, hlistens, hle⟩ := h
      rw [← hsignals] at hle
      exact paid_race hlistens hle hcuts
    · have hnone : Visit.cutShort ⟨stage, w⟩ = false := by
        cases stage with
        | prompting prompt r => exact absurd ⟨_, _, rfl⟩ hp
        | racing race r => exact absurd ⟨_, _, rfl⟩ hr
        | _ => rfl
      have hracing := Stage.isRacing_turn w (fun prompt r hs => hp ⟨prompt, r, hs⟩)
        (fun race r hs => hr ⟨race, r, hs⟩)
      refine paid_of_le hracing ?_
      rw [hcuts, hnone, hsignals]
      exact h.le

theorem bus (h : Chronicle log acts stage w) : w.bus = Bus.run {} acts := by
  induction h with
  | start hb => exact hb
  | turn _ hb _ ih => rw [hb, ih, Bus.run_append]
  | others _ hb _ ih => rw [hb, ih, Bus.run_append]

/-- Every turn of the session's task carries its chronicle on. -/
theorem exists_turn (h : Chronicle log acts stage w) :
    ∃ more, Chronicle (log ++ [⟨stage, w⟩]) (acts ++ more) (stage.turn w).2 (stage.turn w).1 := by
  obtain ⟨more, hb, ha⟩ := stage.acts_turn w
  exact ⟨more, h.turn hb fun hmem => ha _ hmem rfl⟩

theorem paid (h : Chronicle log acts stage w) : Paid log acts w.bus stage := by
  induction h with
  | start hb => exact Nat.zero_le _
  | turn h hb ha ih => exact ih.turn (h.bus ▸ Bus.agrees_run _) ha
  | others h hb ha ih =>
    rw [hb]
    exact ih.others h.bus ha

end Chronicle

/-- **Races against an interrupt.** Whenever a race returns, it returns what the work itself has come
to, after whatever looks at it, or that it was interrupted, and nothing else; it was interrupted only
if an interrupt that was handed out since the race was started lay in front in its own listener's
mailbox and the work, looked at first, was not finished; work that is finished when it is looked at
wins; no subscription is left but what others have made, and nothing of what the race held. Once its
listener has been closed, or the mark of the end is what it has next, no interrupt ends a race any
more. So in a session no more responses are cut short than interrupts are published. -/
theorem interrupt_race :
    (∀ (β : Type) (job : Job β) (x : Heat β), Heat.Reached job x →
      Race.Worked job x.race.work ∧
      (∀ w r, x.race.poll x.world = (w, .pending r) → x.race.Works x.world (.pending r.work)) ∧
      (∀ w result, x.race.poll x.world = (w, .ready result) →
        ((∃ v, result = .ok v ∧ x.race.Works x.world (.ready v)) ∨
          result = .error .interrupted) ∧
        (result = .error .interrupted → ∃ id e more work u, x.race.interrupts = some id ∧
          x.world.bus.inbox id = .event e :: more ∧ e ∈ Event.on Channel.interrupt x.heard ∧
          x.race.work.poll x.world = (u, .pending work)) ∧
        ∀ i ∈ w.bus.ids, i ∈ x.theirs ∧ i ∉ x.race.holds) ∧
      (∀ u v, x.race.work.poll x.world = (u, .ready v) →
        (x.race.poll x.world).2 = .ready (.ok v)) ∧
      (x.Deaf → ∀ y, Relation.ReflTransGen Heat.Step x y →
        ∀ e, (y.race.poll y.world).2 ≠ .ready (.error e))) ∧
    ∀ log acts stage w, Chronicle log acts stage w →
      (log.filter (·.cutShort)).length ≤
        (Event.on Channel.interrupt (Bus.published acts)).length := by
  refine ⟨?_, ?_⟩
  · intro β job x hx
    have hinv := Heat.inv_of_reached hx
    refine ⟨hinv.worked, fun w r hp => (Race.goesOn_of_poll hp).works,
      fun w result hp => hinv.returns hp, ?_, ?_⟩
    · intro u v hwork
      simp only [Race.poll, hwork, Race.won]
    · intro hdeaf y hy e
      exact hinv.not_interrupted_later hdeaf hy e
  · intro log acts stage w h
    -- what was handed out was published before
    have hpublished := congrArg List.length (Bus.published_eq acts Channel.interrupt)
    rw [List.length_append] at hpublished
    have hle := h.paid.le
    simp only [Chronicle.cuts, Chronicle.signals] at hle
    omega

/-- An interrupt from before the race ends it, though it is handed out only after the first look. -/
theorem interrupt_race_held_back :
    let m : Message :=
      { id := .ofSerial 0, channel := Channel.interrupt, source := .server, data := .null,
        extra := [], createdAt := .ofMillis 0 }
    let e : Event Message := ⟨Channel.interrupt, m⟩
    let w : World := { shared := {}, bus := Bus.run {} [.publish e, .connect true] }
    let x : Heat Unit := Heat.start .stall w
    let looked : Heat Unit := { x with race := { work := .stalled [], interrupts := some 0 } }
    let y : Heat Unit := { looked with
      world := { looked.world with bus := looked.world.bus.dispatch }
      heard := [e] }
    Heat.Step x looked ∧ Heat.Step looked y ∧ Heat.Reached .stall y ∧
      (y.race.poll y.world).2 = .ready (.error .interrupted) ∧
      ∀ i ∈ (y.race.poll y.world).1.bus.ids, i ∈ y.theirs ∧ i ∉ y.race.holds := by
  intro m e w x looked y
  have hlook : Heat.Step x looked := .look rfl
  have havoids : ∀ id ∈ looked.race.holds, ∀ a ∈ ([.dispatch] : List (Bus.Act Message)),
      a.Avoids id := by
    intro id _ a ha
    rw [List.mem_singleton.1 ha]
    exact ⟨nofun, nofun⟩
  have hothers : Heat.Step looked y := .others rfl havoids
  have hstart : Heat.Reached .stall x := .start ⟨_, rfl⟩
  have hy : Heat.Reached .stall y := (hstart.step hlook).step hothers
  have hpoll : (y.race.poll y.world).2 = .ready (.error .interrupted) := rfl
  refine ⟨hlook, hothers, hy, hpoll, ?_⟩
  exact ((interrupt_race.1 _ _ y hy).2.2.1 _ _ (Prod.ext rfl hpoll)).2.2

end Parley
