import Parley.Schedule.Basic

/-!
# The queue of tasks

Rousing tasks, by whatever signal, puts tasks into the queue and does nothing else
(`Schedule.Roused`). Everyone who waits for a signal is in the queue after it (`mem_ready_signal`),
and so is the dispatcher once there is something to hand out (`mem_ready_nudge`).
`dispatchTurn_spec` says the same of a turn of the dispatcher, and the lemmas on `task?` say who is
there after a spawn and where a task stands after its turn.
-/

set_option autoImplicit false

namespace Parley.Schedule

variable {α σ τ : Type}

/-- The identifiers given so far are behind the next one. -/
def Numbered (s : Schedule α σ τ) : Prop := ∀ t ∈ s.tasks, t.id < s.nextTask

/-- Tasks have been put into the queue, and nothing else has happened. -/
structure Roused (s s' : Schedule α σ τ) : Prop where
  same : s' = { s with ready := s'.ready }
  kept : ∀ id ∈ s.ready, id ∈ s'.ready

namespace Roused

theorem refl (s : Schedule α σ τ) : Roused s s := ⟨rfl, fun _ h => h⟩

theorem trans {s s' s'' : Schedule α σ τ} (h : Roused s s') (h' : Roused s' s'') : Roused s s'' :=
  ⟨by rw [h'.same, h.same], fun id hid => h'.kept id (h.kept id hid)⟩

theorem cons {s s' : Schedule α σ τ} (h : Roused s s') (id : TaskId) :
    Roused s { s' with ready := id :: s'.ready } :=
  ⟨by rw [h.same], fun i hi => List.mem_cons_of_mem _ (h.kept i hi)⟩

theorem foldl {β : Type} {f : Schedule α σ τ → β → Schedule α σ τ}
    (hf : ∀ s x, Roused s (f s x)) (xs : List β) (s : Schedule α σ τ) :
    Roused s (xs.foldl f s) := by
  induction xs generalizing s with
  | nil => exact refl s
  | cons x xs ih => exact (hf s x).trans (ih _)

section
variable {s s' : Schedule α σ τ} (h : Roused s s')
include h

theorem bus : s'.bus = s.bus := by rw [h.same]

theorem shared : s'.shared = s.shared := by rw [h.same]

theorem tasks : s'.tasks = s.tasks := by rw [h.same]

theorem nextTask : s'.nextTask = s.nextTask := by rw [h.same]

theorem dispatcher : s'.dispatcher = s.dispatcher := by rw [h.same]

theorem task? (id : TaskId) : s'.task? id = s.task? id := by
  rw [Schedule.task?, h.tasks, Schedule.task?]

theorem numbered (hs : s.Numbered) : s'.Numbered := fun t ht => by
  rw [h.tasks] at ht
  exact h.nextTask ▸ hs t ht

end

end Roused

theorem roused_rouse (s : Schedule α σ τ) (id : TaskId) : Roused s (s.rouse id) := by
  unfold rouse
  split
  · exact .refl s
  · exact ⟨rfl, fun _ h => List.mem_append_left _ h⟩

theorem mem_ready_foldl_rouse {ids : List TaskId} {id : TaskId} (s : Schedule α σ τ)
    (h : id ∈ ids) :
    id ∈ (ids.foldl rouse s).ready := by
  induction ids generalizing s with
  | nil => cases h
  | cons i ids ih =>
    rcases List.mem_cons.1 h with rfl | h
    · exact (Roused.foldl roused_rouse ids _).kept id (mem_ready_rouse s id)
    · exact ih _ h

section
variable [Standing τ]

theorem roused_signal (s : Schedule α σ τ) (sig : Signal) : Roused s (s.signal sig) :=
  .foldl roused_rouse _ s

/-- Everyone who waits for a signal is queued by it. -/
theorem mem_ready_signal {s : Schedule α σ τ} {sig : Signal} {t : Task τ} (ht : t ∈ s.tasks)
    (h : heeds sig t = true) : t.id ∈ (s.signal sig).ready :=
  mem_ready_foldl_rouse s (List.mem_map_of_mem (List.mem_filter.2 ⟨ht, h⟩))

theorem roused_signals (s : Schedule α σ τ) (ids : List SubscriptionId) :
    Roused s (ids.foldl (fun s i => s.signal (.mail i)) s) :=
  .foldl (fun s i => roused_signal s (.mail i)) ids s

theorem mem_ready_signals {s : Schedule α σ τ} {ids : List SubscriptionId} {i : SubscriptionId}
    (hi : i ∈ ids) {t : Task τ} (ht : t ∈ s.tasks) (h : heeds (.mail i) t = true) :
    t.id ∈ (ids.foldl (fun s i => s.signal (.mail i)) s).ready := by
  induction ids generalizing s with
  | nil => cases hi
  | cons j ids ih =>
    rcases List.mem_cons.1 hi with rfl | hi
    · exact (roused_signals _ ids).kept _ (mem_ready_signal ht h)
    · exact ih hi ((roused_signal s (.mail j)).tasks ▸ ht)

/-- A turn of the dispatcher with nothing to hand out. -/
theorem dispatchTurn_of_rest {s : Schedule α σ τ} (hq : s.bus.backend.queue = []) (id : TaskId) :
    s.dispatchTurn id = s := by
  rw [dispatchTurn, hq]

/-- A turn of the dispatcher with something to hand out: everyone whose mailbox the event goes to is
queued, and so is the dispatcher itself. -/
theorem dispatchTurn_spec {s : Schedule α σ τ} {e : Event α} {rest : List (Event α)}
    (hq : s.bus.backend.queue = e :: rest) (id : TaskId) :
    Roused { s with bus := s.bus.dispatch } (s.dispatchTurn id) ∧ id ∈ (s.dispatchTurn id).ready ∧
      ∀ i ∈ s.bus.recipients e.channel, ∀ t ∈ s.tasks, heeds (.mail i) t = true →
        t.id ∈ (s.dispatchTurn id).ready := by
  have htold := roused_signals { s with bus := s.bus.dispatch } (s.bus.recipients e.channel)
  have hmail : ∀ i ∈ s.bus.recipients e.channel, ∀ t ∈ s.tasks, heeds (.mail i) t = true → _ :=
    fun i hi t ht h => mem_ready_signals (s := { s with bus := s.bus.dispatch }) hi ht h
  simp only [dispatchTurn, hq]
  split
  · exact ⟨(htold.trans (roused_signal _ .idle)).cons id, List.mem_cons_self, fun i hi t ht h =>
      List.mem_cons_of_mem _ ((roused_signal _ .idle).kept _ (hmail i hi t ht h))⟩
  · exact ⟨htold.cons id, List.mem_cons_self, fun i hi t ht h =>
      List.mem_cons_of_mem _ (hmail i hi t ht h)⟩

end

theorem roused_nudge (s : Schedule α σ τ) : Roused s s.nudge := by
  unfold nudge
  split
  · split
    · exact .refl s
    · exact roused_rouse s _
  · exact .refl s

/-- With something to hand out the dispatcher is queued. -/
theorem mem_ready_nudge {s : Schedule α σ τ} {d : TaskId} (hd : s.dispatcher = some d)
    (hq : s.bus.backend.queue ≠ []) : d ∈ s.nudge.ready := by
  rw [nudge, hd]
  simp only [List.isEmpty_iff, hq, if_false]
  exact mem_ready_rouse s d

/-- The dispatcher is queued while there is something to hand out. -/
def Nudged (s : Schedule α σ τ) : Prop :=
  ∀ d, s.dispatcher = some d → s.bus.backend.queue ≠ [] → d ∈ s.ready

theorem nudged_nudge (s : Schedule α σ τ) : s.nudge.Nudged := fun d hd hq => by
  have h := roused_nudge s
  exact mem_ready_nudge (h.dispatcher ▸ hd) (h.bus ▸ hq)

/-! ## Who is there -/

theorem task?_eq_some {s : Schedule α σ τ} {id : TaskId} {t : Task τ} (h : s.task? id = some t) :
    t ∈ s.tasks ∧ t.id = id :=
  ⟨List.mem_of_find?_eq_some h, by simpa using List.find?_some h⟩

theorem numbered_spawnRole {s : Schedule α σ τ} (h : s.Numbered) (role : Role τ) :
    (s.spawnRole role).Numbered := fun t ht => by
  rcases List.mem_append.1 ht with ht | ht
  · exact Nat.lt_succ_of_lt (h t ht)
  · rw [List.mem_singleton.1 ht]
    exact Nat.lt_succ_self _

theorem task?_spawnRole {s : Schedule α σ τ} (h : s.Numbered) (role : Role τ) :
    (s.spawnRole role).task? s.nextTask = some { id := s.nextTask, role } := by
  have hnone : s.tasks.find? (·.id == s.nextTask) = none := by
    rw [List.find?_eq_none]
    intro t ht
    simpa using Nat.ne_of_lt (h t ht)
  rw [task?, spawnRole, List.find?_append, hnone]
  simp

theorem task?_spawnRole_of_some {s : Schedule α σ τ} {id : TaskId} {t : Task τ}
    (h : s.task? id = some t) (role : Role τ) : (s.spawnRole role).task? id = some t := by
  rw [task?, spawnRole, List.find?_append, show List.find? _ _ = _ from h]
  rfl

/-- A start that is not refused marks the bus as connected and starts the dispatcher. -/
theorem connect_spec {s s' : Schedule α σ τ} {runtime : Bool} (h : s.connect runtime = .ok s') :
    s' = { s.spawnRole .dispatcher with
      bus := { s.bus with connected := true }, dispatcher := some s.nextTask } := by
  unfold connect at h
  split at h
  · cases h
  · next bus hb =>
    cases h
    unfold Bus.connect at hb
    split at hb
    · cases hb
    · split at hb
      · cases hb
      · cases hb
        rfl

theorem task?_place (s : Schedule α σ τ) (id i : TaskId) (standing : τ) :
    (s.place id standing).task? i =
      (s.task? i).map fun t => if i = id then { t with role := .own standing } else t := by
  rw [task?, place, List.find?_map, task?]
  have hcomp : ((fun t : Task τ => t.id == i) ∘ fun t =>
      if t.id == id then { t with role := .own standing } else t) = fun t => t.id == i := by
    funext t
    simp only [Function.comp]
    split <;> rfl
  rw [hcomp]
  cases hf : s.tasks.find? (·.id == i) with
  | none => rfl
  | some t =>
    have : t.id = i := by simpa using List.find?_some hf
    simp [this]

theorem task?_place_of_ne (s : Schedule α σ τ) {id i : TaskId} (hi : i ≠ id) (standing : τ) :
    (s.place id standing).task? i = s.task? i := by
  rw [task?_place]
  cases s.task? i with
  | none => rfl
  | some t => rw [Option.map_some, if_neg hi]

theorem numbered_place {s : Schedule α σ τ} (h : s.Numbered) (id : TaskId) (standing : τ) :
    (s.place id standing).Numbered := fun t ht => by
  obtain ⟨x, hx, rfl⟩ := List.mem_map.1 ht
  have := h x hx
  split <;> exact this

/-! ## Tasks that end -/

theorem task?_remove [Standing τ] (s : Schedule α σ τ) (id i : TaskId) :
    (s.remove id).task? i = if i = id then none else s.task? i := by
  rw [remove, (roused_signal _ _).task?, task?, task?, List.find?_filter]
  by_cases hi : i = id
  · subst hi
    rw [if_pos rfl, List.find?_eq_none]
    simp
  · rw [if_neg hi]
    congr 1
    funext t
    by_cases ht : t.id = i
    · simp [ht, hi]
    · simp [ht]

theorem numbered_remove [Standing τ] {s : Schedule α σ τ} (h : s.Numbered) (id : TaskId) :
    (s.remove id).Numbered :=
  (roused_signal _ _).numbered fun t ht => h t (List.mem_filter.1 ht).1

theorem task?_markCancelled (s : Schedule α σ τ) (id i : TaskId) :
    (s.markCancelled id).task? i =
      (s.task? i).map fun t => if i = id then { t with cancelled := true } else t := by
  rw [task?, markCancelled, List.find?_map, task?]
  have hcomp : ((fun t : Task τ => t.id == i) ∘ fun t =>
      if t.id == id then { t with cancelled := true } else t) = fun t => t.id == i := by
    funext t
    simp only [Function.comp]
    split <;> rfl
  rw [hcomp]
  cases hf : s.tasks.find? (·.id == i) with
  | none => rfl
  | some t =>
    have : t.id = i := by simpa using List.find?_some hf
    simp [this]

/-- Cancelling a task changes that task alone. -/
theorem abort_spec (s : Schedule α σ τ) (id : TaskId) :
    (∀ i, (s.abort id).task? i =
      (s.task? i).map fun t => if i = id then { t with cancelled := true } else t) ∧
    (s.Numbered → (s.abort id).Numbered) ∧
    (s.abort id).bus = s.bus ∧ (s.abort id).dispatcher = s.dispatcher ∧
    (s.abort id).nextTask = s.nextTask := by
  unfold abort
  split
  · have hr := roused_rouse (s.markCancelled id) id
    refine ⟨fun i => (hr.task? i).trans (task?_markCancelled s id i), fun hs => hr.numbered ?_,
      hr.bus, hr.dispatcher, hr.nextTask⟩
    intro t ht
    obtain ⟨x, hx, rfl⟩ := List.mem_map.1 ht
    have := hs x hx
    split <;> exact this
  · next hnone =>
    refine ⟨fun i => ?_, fun hs => hs, rfl, rfl, rfl⟩
    cases hi : s.task? i with
    | none => rfl
    | some t =>
      have hne : i ≠ id := by
        rintro rfl
        exact hnone (by rw [hi]; rfl)
      rw [Option.map_some, if_neg hne]

/-! ## Whose turn it is -/

section
variable [Standing τ] {p : Program α σ τ} {s : Schedule α σ τ} {id : TaskId} {rest : List TaskId}
  (h : s.ready = id :: rest)
include h

theorem step_dispatcher (ht : s.task? id = some { id, role := .dispatcher }) :
    s.step p = dispatchTurn { s with ready := rest } id := by
  have ht' : task? { s with ready := rest } id = some { id, role := .dispatcher } := ht
  simp only [step, h, ht', Bool.false_eq_true, if_false]

/-- The turn of a task that has ended before is nobody's. -/
theorem step_none (ht : s.task? id = none) : s.step p = { s with ready := rest } := by
  have ht' : task? { s with ready := rest } id = none := ht
  simp only [step, h, ht']

/-- A cancelled task gives back what it holds, and is gone. -/
theorem step_cancelled {role : Role τ} (ht : s.task? id = some ⟨id, role, true⟩) :
    s.step p = endTurn { s with ready := rest } ⟨id, role, true⟩ := by
  have ht' : task? { s with ready := rest } id = some ⟨id, role, true⟩ := ht
  simp only [step, h, ht', if_true]

theorem step_own {a : τ} (ht : s.task? id = some { id, role := .own a }) :
    s.step p = settleTurn id (p.turn id a { s with ready := rest }) := by
  have ht' : task? { s with ready := rest } id = some { id, role := .own a } := ht
  simp only [step, h, ht', Bool.false_eq_true, if_false]

end

/-- A task that goes on is placed where it stands, and nothing else happens to tasks, bus and what is
shared. -/
theorem settleTurn_spec [Standing τ] {led : Schedule α σ τ × Progress τ} {a : τ}
    (h : led.2 = .wait a ∨ led.2 = .again a) (id : TaskId) :
    (settleTurn id led).bus = led.1.bus ∧ (settleTurn id led).shared = led.1.shared ∧
      ∀ i, (settleTurn id led).task? i = (led.1.place id a).task? i := by
  obtain ⟨s, p⟩ := led
  rcases h with rfl | rfl
  · exact ⟨rfl, rfl, fun _ => rfl⟩
  · exact ⟨rfl, rfl, fun _ => rfl⟩

/-- A task that has been placed stands there. -/
theorem eq_of_placed {s : Schedule α σ τ} {id : TaskId} {a b : τ} {c : Bool}
    (h : (s.place id a).task? id = some ⟨id, .own b, c⟩) : b = a := by
  rw [task?_place] at h
  obtain ⟨t, -, ht⟩ := Option.map_eq_some_iff.1 h
  rw [if_pos rfl] at ht
  cases ht
  rfl

/-- What stands elsewhere than the task that has been placed stood there before. -/
theorem task?_of_place {s : Schedule α σ τ} {id i : TaskId} {a b : τ} {c : Bool}
    (h : (s.place id a).task? i = some ⟨i, .own b, c⟩) (hb : b ≠ a) :
    s.task? i = some ⟨i, .own b, c⟩ := by
  have hi : i ≠ id := by
    rintro rfl
    exact hb (eq_of_placed h)
  rwa [task?_place_of_ne _ hi] at h

end Parley.Schedule
