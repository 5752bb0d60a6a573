import Mathlib.Algebra.Order.BigOperators.Group.List
import Mathlib.Algebra.Order.Ring.Nat
import Parley.Proofs.Session.Exchange

/-!
# Exchanges come to rest

From every state of an exchange the turns that are due come to an end, if nobody calls anything any
more (`Exchange.settles`). What goes down with every turn is the work that the tasks that wait have
left, then the events that are queued, then the turns that are due (`Inv.turn_work`). Once the
stream has been started, all requests that were replied to and are waited for have then found their
replies (`Exchange.answered`). `Exchange.correlated` puts together what holds of every run.
-/

set_option autoImplicit false

namespace Parley.Exchange

variable {requests : List Message}

/-- The turns that are due are taken, and nothing else happens; others pass. -/
inductive Settles (requests : List Message) : Exchange → Exchange → Prop
  | refl (x : Exchange) : Settles requests x x
  | turn {x y : Exchange} {t : TaskId} {rest : List TaskId} (hready : x.world.ready = t :: rest)
    (ht : x.owns requests t) (hy : Settles requests x.turn y) : Settles requests x y
  | pass {x y : Exchange} {t : TaskId} {rest : List TaskId} (hready : x.world.ready = t :: rest)
    (ht : ¬x.owns requests t)
    (hy : Settles requests { x with world := { x.world with ready := rest } } y) :
    Settles requests x y

/-- Somebody else passes when it is his turn. -/
theorem traffic_pass {x : Exchange} {t : TaskId} {rest : List TaskId}
    (hready : x.world.ready = t :: rest) (ht : ¬x.owns requests t) :
    Traffic requests x { x.world with ready := rest } := by
  have hkept : ∀ i, x.owns requests i → i ∈ x.world.ready → i ∈ rest := by
    intro i hi hmem
    rw [hready] at hmem
    refine (List.mem_cons.1 hmem).resolve_left ?_
    rintro rfl
    exact ht hi
  refine ⟨.inl rfl, rfl, id, fun hnudged d hd hq => ?_, fun i hi => ⟨rfl, hkept i hi⟩⟩
  exact hkept d (.inl hd) (hnudged d hd hq)

theorem Settles.reached {x y : Exchange} (h : Settles requests x y) (hx : Reached requests x) :
    Reached requests y := by
  induction h with
  | refl x => exact hx
  | turn hready ht hy ih => exact ih (hx.step (.turn hready ht))
  | pass hready ht hy ih => exact ih (hx.step (.traffic (traffic_pass hready ht)))

theorem Settles.same {x y : Exchange} (h : Settles requests x y) :
    y.reply? = x.reply? ∧ y.waiter? = x.waiter? := by
  induction h with
  | refl x => exact ⟨rfl, rfl⟩
  | turn hready ht hy ih => exact ih
  | pass hready ht hy ih => exact ih

/-! ## The work that is left -/

/-- How many turns a task that waits for a reply needs from where it stands. -/
def turnsLeft : Activity → Nat
  | .errand (.fresh _) => 2
  | .errand _ => 1
  | _ => 0

/-- How many turns the task that waits for the reply to a request needs. -/
def left (x : Exchange) (r : Message) : Nat :=
  ((x.waiter? r.id).bind x.world.standing?).elim 0 turnsLeft

/-- The work before an exchange comes to rest: the turns that tasks need to find their replies, the
events that are queued, and the turns that are due. -/
def work (requests : List Message) (x : Exchange) : Nat × Nat × Nat :=
  ((requests.map x.left).sum, x.world.bus.backend.queue.length, x.world.ready.length)

def Less : Nat × Nat × Nat → Nat × Nat × Nat → Prop := Prod.Lex (· < ·) (Prod.Lex (· < ·) (· < ·))

theorem wellFounded_less : WellFounded Less :=
  WellFounded.prod_lex wellFounded_lt (WellFounded.prod_lex wellFounded_lt wellFounded_lt)

/-- The turn of a task that waits changes what that task needs, and nothing else. -/
theorem Inv.left_placed {x : Exchange} (hx : Inv requests x) {r : Message} (hr : r ∈ requests)
    {t : TaskId} (ht : x.waiter? r.id = some t) {w : World} (hw : w.tasks = x.world.tasks)
    {a' : Activity} (task : Stands x.world t a') (a : Activity) :
    left { x with world := w.place t a } r = turnsLeft a ∧
      ∀ r' ∈ requests, r'.id ≠ r.id → left { x with world := w.place t a } r' = x.left r' := by
  constructor
  · have hplaced : (w.place t a).standing? t = some a :=
      standing?_of_stands (stands_place task hw a)
    rw [left, ht, Option.bind_some, hplaced]
    rfl
  · intro r' hr' hne
    rw [left, left]
    cases hi : x.waiter? r'.id with
    | none => rfl
    | some i =>
      have hit : i ≠ t := by
        rintro rfl
        exact hne (hx.apart r' hr' r hr i hi ht)
      have hsame : (w.place t a).task? i = x.world.task? i := by
        rw [Schedule.task?_place_of_ne w hit, Schedule.task?, hw, Schedule.task?]
      rw [Option.bind_some, Option.bind_some, Schedule.standing?, Schedule.standing?, hsame]

section
variable (hids : (requests.map (·.id)).Nodup)
include hids

/-- A turn after which the task needs fewer turns leaves less work. -/
theorem Inv.work_placed_lt {x : Exchange} (hx : Inv requests x) {r : Message} (hr : r ∈ requests)
    {t : TaskId} (ht : x.waiter? r.id = some t) {w : World} (hw : w.tasks = x.world.tasks)
    {a' : Activity} (task : Stands x.world t a') {a : Activity} (h : turnsLeft a < turnsLeft a') :
    Less (work requests { x with world := w.place t a }) (work requests x) := by
  obtain ⟨hown, hothers⟩ := hx.left_placed hr ht hw task a
  have hleft : x.left r = turnsLeft a' := by
    rw [left, ht, Option.bind_some, standing?_of_stands task]
    rfl
  have hlt : left { x with world := w.place t a } r < x.left r := by
    rw [hown, hleft]
    exact h
  refine .left _ _ (List.sum_lt_sum _ _ (fun r' hr' => ?_) ⟨r, hr, hlt⟩)
  by_cases he : r'.id = r.id
  · rw [eq_of_id hids hr hr' he]
    exact hlt.le
  · exact (hothers r' hr' he).le

/-- A turn after which the task stands where it stood leaves a turn less. -/
theorem Inv.work_stayed {x : Exchange} (hx : Inv requests x) {r : Message} (hr : r ∈ requests)
    {t : TaskId} (ht : x.waiter? r.id = some t) {rest : List TaskId}
    (hready : x.world.ready = t :: rest) {a : Activity} (task : Stands x.world t a) :
    Less (work requests { x with world := Schedule.place { x.world with ready := rest } t a })
      (work requests x) := by
  let w : World := { x.world with ready := rest }
  obtain ⟨hown, hothers⟩ := hx.left_placed hr ht (w := w) rfl task a
  have hsame : requests.map (left { x with world := w.place t a }) = requests.map x.left := by
    refine List.map_congr_left fun r' hr' => ?_
    by_cases he : r'.id = r.id
    · rw [eq_of_id hids hr hr' he, hown, left, ht, Option.bind_some, standing?_of_stands task]
      rfl
    · exact hothers r' hr' he
  have hdue : rest.length < x.world.ready.length := by
    rw [hready]
    exact Nat.lt_succ_self _
  rw [work, work, hsame]
  exact .right _ (.right _ hdue)

/-- The turn of a task that waits leaves less work. -/
theorem Inv.work_waiter {x : Exchange} (hx : Inv requests x) {r : Message} (hr : r ∈ requests)
    {t : TaskId} (ht : x.waiter? r.id = some t) {rest : List TaskId}
    (hready : x.world.ready = t :: rest) : Less (work requests x.turn) (work requests x) := by
  let w : World := { x.world with ready := rest }
  have hwaited := hx.waited hr ht hready
  have hturn : x.turn = { x with world := x.turn.world } := rfl
  rw [hturn]
  generalize x.turn.world = next at hwaited ⊢
  cases hwaited with
  | listens task bus =>
    have hw : (w.listen r.replyChannel).tasks = w.tasks := (Schedule.roused_nudge _).tasks
    exact hx.work_placed_lt hids hr ht hw task (Nat.lt_succ_self 1)
  | stays task phase => exact hx.work_stayed hids hr ht hready task
  | @reads id m task own bus =>
    have hw : ((w.taken id).release id).tasks = w.tasks := rfl
    exact hx.work_placed_lt hids hr ht hw task (Nat.lt_succ_self 0)

omit hids in
theorem work_popped {x : Exchange} {t : TaskId} {rest : List TaskId}
    (hready : x.world.ready = t :: rest) :
    Less (work requests { x with world := { x.world with ready := rest } }) (work requests x) := by
  have hdue : rest.length < x.world.ready.length := by
    rw [hready]
    exact Nat.lt_succ_self _
  exact .right _ (.right _ hdue)

omit hids in
/-- The turn of the dispatcher leaves an event less, or a turn less. -/
theorem Inv.work_dispatcher {x : Exchange} (hx : Inv requests x) {d : TaskId}
    (hd : x.world.dispatcher = some d) {rest : List TaskId} (hready : x.world.ready = d :: rest) :
    Less (work requests x.turn) (work requests x) := by
  rcases hx.dispatched hd hready with ⟨-, hturn⟩ | ⟨e, queue, hq, hw, -⟩
  · rw [hturn]
    exact work_popped hready
  · have hleft : requests.map x.turn.left = requests.map x.left := by
      refine List.map_congr_left fun r _ => ?_
      have hstanding : x.turn.world.standing? = x.world.standing? := by
        funext t
        rw [Schedule.standing?, hw.task?, Schedule.standing?]
        rfl
      rw [left, left, hstanding]
      rfl
    have hqueue : x.turn.world.bus.backend.queue.length < x.world.bus.backend.queue.length := by
      rw [hw.bus, Bus.dispatch_cons (hx.dispatcher d hd).2 hq, hq]
      exact Nat.lt_succ_self _
    rw [work, work, hleft]
    exact .right _ (.left _ _ hqueue)

/-! ## Coming to rest -/

/-- Every turn leaves less work. -/
theorem Inv.turn_work {x : Exchange} (hx : Inv requests x) {t : TaskId} {rest : List TaskId}
    (hready : x.world.ready = t :: rest) (ht : x.owns requests t) :
    Less (work requests x.turn) (work requests x) := by
  rcases ht with hd | ⟨r, hr, ht⟩
  · exact hx.work_dispatcher hd hready
  · exact hx.work_waiter hids hr ht hready

omit hids in
theorem Inv.dispatcher_turn {x : Exchange} (hx : Inv requests x) {t : TaskId} {rest : List TaskId}
    (hready : x.world.ready = t :: rest) (ht : x.owns requests t) :
    x.turn.world.dispatcher = x.world.dispatcher := by
  rcases ht with hd | ⟨r, hr, ht⟩
  · rcases hx.dispatched hd hready with ⟨-, hturn⟩ | ⟨e, queue, -, hw, -⟩
    · rw [hturn]
    · exact hw.dispatcher
  · have hwaited := hx.waited hr ht hready
    generalize x.turn.world = next at hwaited ⊢
    cases hwaited with
    | listens => exact (Schedule.roused_nudge _).dispatcher
    | stays => rfl
    | reads => rfl

/-- From every state the turns that are due come to an end. -/
theorem settles {x : Exchange} (hx : Reached requests x) :
    ∃ y, Settles requests x y ∧ y.world.ready = [] ∧ y.world.dispatcher = x.world.dispatcher := by
  induction hn : work requests x using wellFounded_less.induction generalizing x with
  | _ n ih =>
    cases hready : x.world.ready with
    | nil => exact ⟨x, .refl x, hready, rfl⟩
    | cons t rest =>
      by_cases ht : x.owns requests t
      · have hinv := inv_of_reached hids hx
        obtain ⟨y, hy, hrest, hd⟩ :=
          ih _ (hn ▸ hinv.turn_work hids hready ht) (hx.step (.turn hready ht)) rfl
        exact ⟨y, .turn hready ht hy, hrest, hd.trans (hinv.dispatcher_turn hready ht)⟩
      · have hpassed := hx.step (.traffic (traffic_pass hready ht))
        obtain ⟨y, hy, hrest, hd⟩ := ih _ (hn ▸ work_popped hready) hpassed rfl
        exact ⟨y, .pass hready ht hy, hrest, hd⟩

/-- Once the stream has been started, the turns that are due lead from every state to one in which
every task that waits for a reply that was given has found it. -/
theorem answered {x : Exchange} (hx : Reached requests x) (hstarted : x.world.dispatcher ≠ none) :
    ∃ y, Settles requests x y ∧ y.world.ready = [] ∧
      ∀ r ∈ requests, ∀ t m, x.waiter? r.id = some t → x.reply? r.id = some m →
        Found y.world r.replyChannel t m := by
  obtain ⟨y, hy, hrest, hd⟩ := settles hids hx
  refine ⟨y, hy, hrest, fun r hr t m ht hm => ?_⟩
  obtain ⟨hreply, hwaiter⟩ := hy.same
  have hinv := inv_of_reached hids (hy.reached hx)
  refine hinv.at_rest (hd ▸ hstarted) (fun i hi => ?_) hr (hwaiter ▸ ht) (hreply ▸ hm)
  rw [hrest] at hi
  cases hi

end

/-- **Requests find their replies.** Let the requests have distinct identifiers, and let a run have
led to `x`, in which a task waits for the reply to `r`. If that task has returned, it has returned
the reply to `r`, which was published on the reply channel of `r`. And if the stream has been
started, `r` has been replied to, and neither the dispatcher nor a task that waits is due, then the
task has returned, and nobody listens on the reply channel and nothing is held back there. The turns
that are due come to an end, so this is always reached. Besides, a reply channel determines the base
and the identifier it is made of. -/
theorem correlated {requests : List Message} (hids : (requests.map (·.id)).Nodup) {x : Exchange}
    (hx : Reached requests x) :
    (∀ r ∈ requests, ∀ t, x.waiter? r.id = some t →
      (∀ result, x.world.standing? t = some (.errandDone result) →
        ∃ m, x.reply? r.id = some m ∧ m.channel = r.replyChannel ∧ result = .ok m) ∧
      (x.world.dispatcher ≠ none → (∀ i ∈ x.world.ready, ¬x.owns requests i) →
        ∀ m, x.reply? r.id = some m → Found x.world r.replyChannel t m)) ∧
    (x.world.dispatcher ≠ none → ∃ y, Settles requests x y ∧ y.world.ready = [] ∧
      ∀ r ∈ requests, ∀ t m, x.waiter? r.id = some t → x.reply? r.id = some m →
        Found y.world r.replyChannel t m) ∧
    ∀ base base' id id', Channel.reply base id = Channel.reply base' id' →
      base = base' ∧ id = id' := by
  refine ⟨fun r hr t ht => ?_, answered hids hx, fun _ _ _ _ => Channel.reply_inj⟩
  have hinv := inv_of_reached hids hx
  refine ⟨fun result hres => ?_, fun hstarted hrest m hm => hinv.at_rest hstarted hrest hr ht hm⟩
  obtain ⟨m, hm, rfl⟩ := hinv.returned hr ht hres
  exact ⟨m, hm, channel_of_reply hids hx hr hm, rfl⟩

/-- Two requests whose replies cross, before the stream is started. -/
theorem correlated_crossed :
    let request (n : Nat) (channel : String) : Message :=
      { id := .ofSerial n, channel, source := .server, data := .null, extra := [],
        createdAt := .ofMillis 0 }
    let requests := [request 7 "a:b", request 8 "a"]
    (requests.map (·.id)).Nodup ∧ ∃ x y, Reached requests x ∧ Settles requests x y ∧
      y.world.ready = [] ∧ ∃ m m', m.data = .text "one" ∧ m'.data = .text "two" ∧
        y.world.standing? 0 = some (.errandDone (.ok m)) ∧
        y.world.standing? 1 = some (.errandDone (.ok m')) := by
  intro request requests
  have hids : (requests.map (·.id)).Nodup := by decide
  have hone : request 7 "a:b" ∈ requests := List.mem_cons_self
  have htwo : request 8 "a" ∈ requests := List.mem_cons_of_mem _ List.mem_cons_self
  let x₁ := ((start {}).reply (request 8 "a") { data := .text "two" }).recv (request 7 "a:b")
  have h₁ : Reached requests x₁ :=
    ((Reached.start {}).step (.reply htwo rfl _)).step (.recv hone rfl)
  let x₂ := (x₁.reply (request 7 "a:b") { data := .text "one" }).recv (request 8 "a")
  have h₂ : Reached requests x₂ := (h₁.step (.reply hone rfl _)).step (.recv htwo rfl)
  let x₃ : Exchange := { x₂ with world := { x₂.world.spawnRole .dispatcher with
    bus := { x₂.world.bus with connected := true }, dispatcher := some x₂.world.nextTask } }
  have h₃ : Reached requests x₃ :=
    h₂.step (.connect (show x₂.world.connect true = .ok x₃.world from rfl))
  have hstarted : x₃.world.dispatcher ≠ none := Option.some_ne_none _
  obtain ⟨y, hy, hrest, hfound⟩ := (correlated hids h₃).2.1 hstarted
  exact ⟨hids, x₃, y, h₃, hy, hrest, _, _, rfl, rfl, (hfound _ hone 0 _ rfl rfl).returned,
    (hfound _ htwo 1 _ rfl rfl).returned⟩

end Parley.Exchange
