import Parley.Proofs.Session.Handling
import Parley.Proofs.Session.Visit

/-!
# What every session does

A session with any commands goes through the stages of its loop (`Stage.InLoop`). It waits for a
reply only after it has asked for it (`Stage.awaiting_of_turn`), and an exit word in the reply has it
close (`Stage.isClosing_of_exit`).

Its turns leave the terminals alone, and they change the settings in one way only, by a step of a
command that sets one (`Stage.spares_turn`, `Stage.settings_change`). So a word remains an exit word
until a command has dropped it (`Visit.isExitWord_next`).
-/

set_option autoImplicit false

namespace Parley

/-! ## Settings and terminals -/

structure Spares (w w' : World) : Prop where
  settings : w'.shared.settings = w.shared.settings
  terminals : ∀ i t c, w'.task? i = some ⟨i, .own (.terminal t), c⟩ →
    ∃ c', w.task? i = some ⟨i, .own (.terminal t), c'⟩

namespace Spares

theorem refl (w : World) : Spares w w := ⟨rfl, fun _ _ c h => ⟨c, h⟩⟩

theorem trans {w w' w'' : World} (h : Spares w w') (h' : Spares w' w'') : Spares w w'' := by
  refine ⟨h'.settings.trans h.settings, fun i t c hi => ?_⟩
  obtain ⟨c', hc'⟩ := h'.terminals i t c hi
  exact h.terminals i t c' hc'

theorem of_tasks {w w' : World} (hs : w'.shared.settings = w.shared.settings)
    (ht : w'.tasks = w.tasks) : Spares w w' := by
  refine ⟨hs, fun i t c hi => ⟨c, ?_⟩⟩
  rwa [Schedule.task?, ht] at hi

theorem of_roused {w w' : World} {b : Bus Message} (h : Schedule.Roused { w with bus := b } w') :
    Spares w w' := by
  refine .of_tasks ?_ h.tasks
  rw [h.same]

end Spares

section
variable (w : World)

theorem spares_send (o : Outgoing) : Spares w (w.send o) := by
  have hstamped : Spares w { w with stamped := w.stamped + 1 } := .of_tasks rfl rfl
  exact hstamped.trans (.of_roused (Schedule.roused_nudge _))

theorem spares_listen (channel : String) : Spares w (w.listen channel) :=
  .of_roused (Schedule.roused_nudge _)

theorem spares_closeAll : Spares w w.closeAll := .of_roused (Schedule.roused_signals _ _)

theorem spares_abort (task : TaskId) : Spares w (w.abort task) := by
  obtain ⟨htasks, -⟩ := w.abort_spec task
  refine ⟨?_, fun i t c hi => ?_⟩
  · unfold Schedule.abort
    split
    · rw [(Schedule.roused_rouse _ _).same]
      rfl
    · rfl
  · rw [htasks] at hi
    obtain ⟨⟨id, role, c'⟩, hw, heq⟩ := Option.map_eq_some_iff.1 hi
    refine ⟨c', hw.trans ?_⟩
    split at heq <;> cases heq <;> rfl

theorem spares_detach : Spares w w.detach := by
  have hbare : Spares w { w with bus := w.bus.detach, dispatcher := none } := .of_tasks rfl rfl
  unfold Schedule.detach
  split
  · exact hbare.trans (spares_abort _ _)
  · exact hbare

/-- A new task is no terminal, unless it is started as one. -/
theorem spares_spawnRole {role : Role Activity} (h : ∀ t, role ≠ .own (.terminal t)) :
    Spares w (w.spawnRole role) := by
  refine ⟨rfl, fun i t c hi => ?_⟩
  cases hw : w.task? i with
  | some old =>
    rw [Schedule.task?_spawnRole_of_some hw] at hi
    exact ⟨c, hi⟩
  | none =>
    rw [Schedule.task?, Schedule.spawnRole, List.find?_append,
      show List.find? _ _ = _ from hw, Option.none_or] at hi
    cases List.mem_singleton.1 (List.mem_of_find?_eq_some hi)
    exact absurd rfl (h t)

theorem spares_connect {w' : World} (h : Schedule.connect w = .ok w') : Spares w w' := by
  obtain rfl := Schedule.connect_spec h
  have hspawned : Spares w (w.spawnRole .dispatcher) := spares_spawnRole w fun t ht => by cases ht
  exact hspawned.trans (.of_tasks rfl rfl)

end

theorem Deed.spares {p : Event Message → Prop} {w w' : World} (h : Deed p w w') : Spares w w' := by
  cases h with
  | send o => exact spares_send w o
  | listen channel => exact spares_listen w channel
  | connect h => exact spares_connect w h
  | detach => exact spares_detach w
  | closeAll => exact spares_closeAll w
  | attend requests => exact spares_spawnRole w fun t ht => by cases ht
  | abort task => exact spares_abort w task
  | _ => exact .of_tasks rfl rfl

theorem Deeds.spares {p : Event Message → Prop} {w w' : World} (h : Deeds p w w') : Spares w w' := by
  induction h with
  | refl => exact .refl w
  | tail _ h ih => exact ih.trans h.spares

namespace Stage

/-- **A turn that sets nothing** leaves the settings and the terminals as they are. -/
theorem spares_turn {stage : Stage} (h : stage.change? = none) (w : World) :
    Spares w (stage.turn w).1 :=
  (deeds_turn (p := fun _ => True) (fun _ _ => trivial) h (fun _ _ => trivial) w).spares

/-- No turn makes a terminal or changes one. -/
theorem terminals_turn (stage : Stage) (w : World) {i : TaskId} {t : Terminal} {c : Bool}
    (h : (stage.turn w).1.task? i = some ⟨i, .own (.terminal t), c⟩) :
    ∃ c', w.task? i = some ⟨i, .own (.terminal t), c'⟩ := by
  cases hchange : stage.change? with
  | none => exact (spares_turn hchange w).terminals i t c h
  | some p =>
    obtain ⟨settings, hturn, -⟩ := settings_change hchange w
    rw [hturn] at h
    exact ⟨c, h⟩

end Stage

/-! ## Exit words -/

/-- The settings other than the exit words have no say in what an exit word is. -/
theorem Settings.isExitWord_set {s s' : Settings} {setting : Setting} {value : String}
    (h : s.set setting value = .ok s') (hs : setting ≠ .exitWords) (word : String) :
    s'.isExitWord word = s.isExitWord word := by
  cases setting with
  | exitWords => exact absurd rfl hs
  | streamDelay =>
    simp only [Settings.set] at h
    split at h <;> cases h
    rfl
  | confirmClear =>
    simp only [Settings.set] at h
    split at h <;> cases h
    rfl

namespace Visit

/-- The turn is a step of a command that sets the exit words, and `word` is none of them then. -/
def Drops (word : String) (v : Visit) : Prop :=
  ∃ value, v.stage.change? = some (.exitWords, value) ∧
    (v.stage.turn v.world).1.shared.settings.isExitWord word = false

theorem isExitWord_next {word : String} {v : Visit}
    (h : v.world.shared.settings.isExitWord word = true) (hv : ¬v.Drops word) :
    (v.stage.turn v.world).1.shared.settings.isExitWord word = true := by
  cases hchange : v.stage.change? with
  | none =>
    rw [(Stage.spares_turn hchange v.world).settings]
    exact h
  | some p =>
    obtain ⟨setting, value⟩ := p
    by_cases hsetting : setting = .exitWords
    · subst hsetting
      rw [← Bool.not_eq_false]
      exact fun hfalse => hv ⟨value, hchange, hfalse⟩
    · obtain ⟨settings, hturn, hsame | hset⟩ := Stage.settings_change hchange v.world
      · rw [hturn]
        exact hsame ▸ h
      · rw [hturn]
        exact (Settings.isExitWord_set hset hsetting word).trans h

end Visit

/-! ## The loop -/

namespace Stage

/-- The stages of a session: before the start, in its loop, and at its end. -/
def InLoop (stage : Stage) : Prop :=
  stage = .unstarted .session ∨ (∃ r, stage.Runs r) ∨ stage.isClosing = true

theorem inLoop_turn {stage : Stage} (h : stage.InLoop) (w : World) : (stage.turn w).2.InLoop := by
  rcases h with rfl | ⟨r, hruns⟩ | hclosing
  · simp only [turn, start, startSession]
    split
    · exact .inr (.inr rfl)
    · exact .inr (.inl ⟨_, rfl⟩)
  · rcases goes_turn hruns w with ⟨hruns', -⟩ | ⟨w', -, hled⟩
    · exact .inr (.inl ⟨r, hruns'⟩)
    · rw [hled]
      exact .inr (.inr (isClosing_endSession _ _ _))
  · exact .inr (.inr (isClosing_turn hclosing w))

/-- An error that ends a session does so wherever its loop awaits a line. -/
theorem isClosing_of_error {use : LineUse} {r : TaskId} (hu : use.Of r) {e : Error}
    (he : e.endsSession = true) (w : World) : (useLine use (.error e) w).2.isClosing = true := by
  cases use with
  | input taker =>
    obtain rfl : taker = .session r := hu
    exact isClosing_endSession _ _ _
  | answer default next caller =>
    obtain rfl : caller = .inputLoop (.session r) := hu
    simp only [useLine, commandDone, he, if_true]
    exact isClosing_endSession _ _ _
  | collected next caller =>
    obtain rfl : caller = .inputLoop (.session r) := hu
    simp only [useLine, commandDone, he, if_true]
    exact isClosing_endSession _ _ _
  | answerAlone default => exact hu.elim
  | lineAlone => exact hu.elim

/-- **An exit word** has the session close. -/
theorem isClosing_of_exit {stage : Stage} (h : stage.InLoop) {w : World} {a : Answer}
    (ha : Visit.answer? ⟨stage, w⟩ = some a) (he : a.isExit = true) :
    (stage.turn w).2.isClosing = true := by
  cases stage with
  | awaitingLine reply use =>
    simp only [Visit.answer?] at ha
    split at ha
    · next event hpeek =>
      cases ha
      obtain ⟨r, hu⟩ : ∃ r, use.Of r := by
        rcases h with h | h | h
        · cases h
        · exact h
        · cases h
      simp only [turn, hpeek]
      rw [show lineOf w.shared.settings event.payload = .error .sessionExit from if_pos he]
      exact isClosing_of_error hu rfl _
    · cases ha
  | _ => cases ha

/-! ## Which reply is awaited -/

/-- The stage waits for the reply to a request for a line. -/
def isAwaiting : Stage → Bool
  | awaitingLine _ _ => true
  | _ => false

theorem isAwaiting_of_isClosing {stage : Stage} (h : stage.isClosing = true) :
    stage.isAwaiting = false := by
  cases stage <;> first | rfl | cases h

theorem isAwaiting_race (responder : TaskId)
    (p : World × Poll (Except Error (Except Error Unit)) (Race Unit)) :
    (race responder p).2.isAwaiting = false := by
  unfold race raced
  split
  · split
    · rfl
    · split
      · exact isAwaiting_of_isClosing (isClosing_endSession _ _ _)
      · rfl
    · rfl
    · exact isAwaiting_of_isClosing (isClosing_endSession _ _ _)
  · rfl

theorem isAwaiting_takePrompt (taker : PromptTaker) (prompt : Except Error String) (w : World) :
    (takePrompt taker prompt w).2.isAwaiting = false := by
  unfold takePrompt
  split
  · rfl
  · split <;> rfl
  · exact isAwaiting_of_isClosing (isClosing_endSession _ _ _)

theorem isAwaiting_commandDone (caller : CommandCaller) (result : Except Error Unit) (w : World) :
    (commandDone caller result w).2.isAwaiting = false := by
  unfold commandDone
  split
  · rfl
  · rfl
  · split
    · exact isAwaiting_takePrompt _ _ w
    · rfl

theorem isAwaiting_command (caller : CommandCaller) (rest : Script) (w : World) :
    (command caller rest w).2.isAwaiting = false := by
  cases rest with
  | finish => exact isAwaiting_commandDone caller _ w
  | fail e => exact isAwaiting_commandDone caller _ w
  | change setting value next =>
    simp only [command]
    split <;> rfl
  | _ => rfl

theorem isAwaiting_useLine (use : LineUse) (line : Except Error String) (w : World) :
    (useLine use line w).2.isAwaiting = false := by
  unfold useLine
  split
  · exact isAwaiting_takePrompt _ _ w
  · split
    · rfl
    · exact isAwaiting_takePrompt _ _ w
  · exact isAwaiting_commandDone _ _ w
  · split <;> rfl
  · exact isAwaiting_commandDone _ _ w
  · rfl
  · rfl
  · split <;> rfl
  · rfl

/-- A session waits for a reply when it has just asked for it, or has waited for it before. -/
theorem awaiting_of_turn {stage : Stage} (h : stage.InLoop) {w : World}
    (hs : (stage.turn w).2.isAwaiting = true) :
    (∃ plain use, stage = .asking plain use) ∨ stage.turn w = (w, stage) := by
  cases stage with
  | asking plain use => exact .inl ⟨plain, use, rfl⟩
  | awaitingLine reply use =>
    right
    simp only [turn] at hs ⊢
    split at hs
    · rfl
    · rw [isAwaiting_useLine] at hs
      cases hs
    · rw [isAwaiting_useLine] at hs
      cases hs
  | unstarted target =>
    obtain rfl : target = .session := by
      rcases h with h | ⟨r, hr⟩ | h
      · exact Stage.unstarted.inj h
      · exact hr.elim
      · cases h
    simp only [turn, start, startSession] at hs
    split at hs <;> cases hs
  | commanding rest caller =>
    rw [show (Stage.commanding rest caller).turn w = command caller rest w from rfl,
      isAwaiting_command] at hs
    cases hs
  | prompting prompt responder =>
    rw [show ((Stage.prompting prompt responder).turn w).2.isAwaiting = _ from
      isAwaiting_race _ _] at hs
    cases hs
  | racing r responder =>
    rw [show ((Stage.racing r responder).turn w).2.isAwaiting = _ from isAwaiting_race _ _] at hs
    cases hs
  | responding work =>
    rcases h with h | ⟨r, hr⟩ | h
    · cases h
    · exact hr.elim
    · cases h
  | _ =>
    rw [isAwaiting_of_isClosing (isClosing_turn rfl w)] at hs
    cases hs

end Stage

end Parley
