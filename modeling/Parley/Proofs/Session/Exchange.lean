import Parley.Proofs.Bus.OneListener
import Parley.Proofs.Message.ReplyChannel
import Parley.Proofs.Schedule.Queue
import Parley.Session.Program

/-!
# Requests find their replies

An `Exchange` is a world with a record of which request was replied to and which task waits for the
reply. It goes on (`Exchange.Step`) when the stream is started, a request is replied to, a task is
started that waits for a reply, the dispatcher or such a task takes its turn, or anybody else does
anything (`Exchange.Traffic`) that leaves the reply channels, the tasks that wait and the dispatcher
alone and does not listen everywhere: he sends and listens on other channels, or starts tasks
(`traffic_send`, `traffic_listen`, `traffic_spawn`).

`Exchange.Inv` says where each request stands (`Exchange.Phase`): nobody waits and the reply, if
there is one, is held back; or a task is about to listen; or it listens, and the reply is in its
mailbox or queued; or it has returned the reply, and the channel is as if it had never been. Every
step keeps it (`Inv.step`). `Inv.returned` and `Inv.at_rest` are what follows for a task that waits.
-/

set_option autoImplicit false

namespace Parley

/-- A world, and for every request by its identifier the reply it was given and the task that waits
for the reply. -/
structure Exchange where
  world : World
  reply? : MessageId → Option Message
  waiter? : MessageId → Option TaskId

namespace Exchange

def start (shared : Context) : Exchange :=
  { world := { shared }, reply? := fun _ => none, waiter? := fun _ => none }

/-- The request is replied to. -/
def reply (x : Exchange) (request : Message) (o : Outgoing) : Exchange :=
  { x with
    world := x.world.send (o.replyTo request)
    reply? := fun id =>
      if id = request.id then some (x.world.stamp (o.replyTo request)) else x.reply? id }

/-- A task is started that waits for the reply. -/
def recv (x : Exchange) (request : Message) : Exchange :=
  { x with
    world := x.world.spawn (.errand (.fresh (.recv request.replyChannel)))
    waiter? := fun id => if id = request.id then some x.world.nextTask else x.waiter? id }

/-- The task that is due takes its turn. -/
def turn (x : Exchange) : Exchange := { x with world := x.world.step program }

/-- The task is the dispatcher or waits for a reply. -/
def owns (requests : List Message) (x : Exchange) (t : TaskId) : Prop :=
  x.world.dispatcher = some t ∨ ∃ r ∈ requests, x.waiter? r.id = some t

/-- The call has nothing to do with the given channels and does not listen everywhere. -/
def foreign (own : List String) (b : Bus Message) : Bus.Act Message → Prop
  | .publish e => e.channel ∉ own
  | .subscribe (.channel c) => c ∉ own
  | .drop id | .read id => ∀ c ∈ own, (id, .channel c) ∉ b.roster
  | _ => False

/-- What anybody else may do: call the bus once, start, end and queue tasks of his own, and change
what is shared. -/
structure Traffic (requests : List Message) (x : Exchange) (w : World) : Prop where
  bus : w.bus = x.world.bus ∨
    ∃ a, foreign (requests.map (·.replyChannel)) x.world.bus a ∧ w.bus = x.world.bus.act a
  dispatcher : w.dispatcher = x.world.dispatcher
  numbered : x.world.Numbered → w.Numbered
  nudged : x.world.Nudged → w.Nudged
  tasks : ∀ t, x.owns requests t →
    w.task? t = x.world.task? t ∧ (t ∈ x.world.ready → t ∈ w.ready)

inductive Step (requests : List Message) (x : Exchange) : Exchange → Prop
  | connect {runtime : Bool} {w : World} (h : x.world.connect runtime = .ok w) :
    Step requests x { x with world := w }
  | reply {r : Message} (hr : r ∈ requests) (h : x.reply? r.id = none) (o : Outgoing) :
    Step requests x (x.reply r o)
  | recv {r : Message} (hr : r ∈ requests) (h : x.waiter? r.id = none) :
    Step requests x (x.recv r)
  | turn {t : TaskId} {rest : List TaskId} (h : x.world.ready = t :: rest)
    (ht : x.owns requests t) : Step requests x x.turn
  | traffic {w : World} (h : Traffic requests x w) : Step requests x { x with world := w }

/-- What a run of steps from a fresh world may lead to. -/
inductive Reached (requests : List Message) : Exchange → Prop
  | start (shared : Context) : Reached requests (start shared)
  | step {x y : Exchange} (hx : Reached requests x) (h : Step requests x y) : Reached requests y

/-! ## Where a request stands -/

/-- A task of the program stands somewhere and has not been cancelled. -/
def Stands (w : World) (t : TaskId) (a : Activity) : Prop :=
  w.task? t = some { id := t, role := .own a }

/-- What is published on the channel of a request. -/
def events (c : String) (reply? : Option Message) : List (Event Message) :=
  (reply?.map fun m => ⟨c, m⟩).toList

/-- Where the request with reply channel `c` stands (module doc). -/
inductive Phase (w : World) (c : String) (reply? : Option Message) : Option TaskId → Prop
  | unheard (bus : w.bus.Parked c (events c reply?)) : Phase w c reply? none
  | fresh {t : TaskId} (task : Stands w t (.errand (.fresh (.recv c)))) (due : t ∈ w.ready)
    (bus : w.bus.Parked c (events c reply?)) : Phase w c reply? (some t)
  | receiving {t : TaskId} {id : SubscriptionId} {es l : List (Event Message)}
    (task : Stands w t (.errand (.receiving [] id .finish))) (due : es ≠ [] → t ∈ w.ready)
    (bus : w.bus.Served c id es l) (all : es ++ l = events c reply?) : Phase w c reply? (some t)
  | done {t : TaskId} {m : Message} (task : Stands w t (.errandDone (.ok m)))
    (own : reply? = some m) (bus : w.bus.Parked c []) : Phase w c reply? (some t)

/-- The invariant of an exchange (module doc). -/
structure Inv (requests : List Message) (x : Exchange) : Prop where
  agrees : x.world.bus.Agrees
  nobody : x.world.bus.under .universal = []
  numbered : x.world.Numbered
  nudged : x.world.Nudged
  dispatcher : ∀ d, x.world.dispatcher = some d →
    x.world.task? d = some { id := d, role := .dispatcher } ∧ x.world.bus.connected = true
  phase : ∀ r ∈ requests, Phase x.world r.replyChannel (x.reply? r.id) (x.waiter? r.id)
  apart : ∀ r ∈ requests, ∀ r' ∈ requests, ∀ t,
    x.waiter? r.id = some t → x.waiter? r'.id = some t → r.id = r'.id

theorem standing?_of_stands {w : World} {t : TaskId} {a : Activity} (h : Stands w t a) :
    w.standing? t = some a := by
  rw [Schedule.standing?, h]

theorem Phase.stands {w : World} {c : String} {reply? : Option Message} {t : TaskId}
    (h : Phase w c reply? (some t)) : ∃ a, Stands w t a := by
  cases h with
  | fresh task => exact ⟨_, task⟩
  | receiving task => exact ⟨_, task⟩
  | done task => exact ⟨_, task⟩

/-- Where a request stands depends on its channel and its task alone. -/
theorem Phase.frame {w w' : World} {c : String} {reply? : Option Message} {waiter? : Option TaskId}
    (h : Phase w c reply? waiter?) (hbus : w.bus.Quiet c w'.bus)
    (htask : ∀ t a, waiter? = some t → Stands w t a →
      Stands w' t a ∧ (t ∈ w.ready → t ∈ w'.ready)) : Phase w' c reply? waiter? := by
  cases h with
  | unheard bus => exact .unheard (bus.quiet hbus)
  | fresh task due bus =>
    obtain ⟨task', due'⟩ := htask _ _ rfl task
    exact .fresh task' (due' due) (bus.quiet hbus)
  | receiving task due bus all =>
    obtain ⟨task', due'⟩ := htask _ _ rfl task
    exact .receiving task' (fun hes => due' (due hes)) (bus.quiet hbus) all
  | done task own bus => exact .done (htask _ _ rfl task).1 own (bus.quiet hbus)

theorem inv_start (requests : List Message) (shared : Context) : Inv requests (start shared) where
  agrees := Bus.agrees_empty
  nobody := rfl
  numbered _ ht := absurd ht List.not_mem_nil
  nudged _ hd := (Option.some_ne_none _ hd.symm).elim
  dispatcher _ hd := (Option.some_ne_none _ hd.symm).elim
  phase _ _ := .unheard ⟨rfl, rfl, rfl⟩
  apart _ _ _ _ _ ht := (Option.some_ne_none _ ht.symm).elim

/-! ## What happens to a request -/

/-- What a send does to an exchange: the message is published, and the dispatcher is roused. -/
theorem roused_send (w : World) (o : Outgoing) :
    Schedule.Roused { w with
      stamped := w.stamped + 1, bus := w.bus.publish ⟨o.channel, w.stamp o⟩ } (w.send o) :=
  Schedule.roused_nudge _

/-- A reply is held back while nobody listens, and is queued otherwise. -/
theorem Phase.reply {w w' : World} {c : String} {waiter? : Option TaskId} {m : Message}
    (h : Phase w c none waiter?) (ha : w.bus.Agrees) (hu : w.bus.under .universal = [])
    (hbus : w'.bus = w.bus.publish ⟨c, m⟩)
    (htask : ∀ t a, waiter? = some t → Stands w t a →
      Stands w' t a ∧ (t ∈ w.ready → t ∈ w'.ready)) : Phase w' c (some m) waiter? := by
  cases h with
  | unheard bus =>
    refine .unheard ?_
    rw [hbus]
    exact bus.publish ha hu m
  | fresh task due bus =>
    obtain ⟨task', due'⟩ := htask _ _ rfl task
    refine .fresh task' (due' due) ?_
    rw [hbus]
    exact bus.publish ha hu m
  | receiving task due bus all =>
    obtain ⟨task', due'⟩ := htask _ _ rfl task
    obtain ⟨rfl, rfl⟩ := List.append_eq_nil_iff.1 all
    refine .receiving task' (fun hes => absurd rfl hes) (l := [⟨c, m⟩]) ?_ rfl
    rw [hbus]
    exact bus.publish ha m
  | done task own bus => cases own

/-! ## Channels of different requests -/

section
variable {requests : List Message} (hids : (requests.map (·.id)).Nodup)
include hids

theorem eq_of_id {r r' : Message} (hr : r ∈ requests) (hr' : r' ∈ requests) (h : r'.id = r.id) :
    r' = r := List.inj_on_of_nodup_map hids hr' hr h

omit hids in
theorem replyChannel_ne {r r' : Message} (h : r'.id ≠ r.id) : r'.replyChannel ≠ r.replyChannel :=
  fun hc => h (Channel.reply_inj hc).2

/-! ## Connecting, replying and waiting -/

omit hids in
theorem Inv.connect {x : Exchange} (hx : Inv requests x) {runtime : Bool} {w : World}
    (h : x.world.connect runtime = .ok w) : Inv requests { x with world := w } := by
  obtain rfl := Schedule.connect_spec h
  refine ⟨hx.agrees.congr rfl rfl rfl fun _ => rfl, hx.nobody,
    Schedule.numbered_spawnRole hx.numbered _, ?_, ?_,
    fun r hr => ?_, hx.apart⟩
  · rintro d hd -
    cases hd
    exact List.mem_append_right _ (List.mem_singleton_self _)
  · intro d hd
    cases hd
    exact ⟨Schedule.task?_spawnRole hx.numbered _, rfl⟩
  · have hquiet : x.world.bus.Quiet r.replyChannel { x.world.bus with connected := true } :=
      .of_backend rfl rfl fun _ _ => rfl
    refine (hx.phase r hr).frame hquiet fun t a _ ha => ⟨?_, fun ht => ?_⟩
    · exact Schedule.task?_spawnRole_of_some ha _
    · exact List.mem_append_left _ ht

theorem Inv.reply {x : Exchange} (hx : Inv requests x) {r : Message} (hr : r ∈ requests)
    (h : x.reply? r.id = none) (o : Outgoing) : Inv requests (x.reply r o) := by
  have hw : Schedule.Roused _ (x.reply r o).world := roused_send x.world (o.replyTo r)
  have htask : ∀ t, (x.reply r o).world.task? t = x.world.task? t := hw.task?
  refine ⟨hw.bus ▸ hx.agrees.publish _, hw.bus ▸ hx.nobody, hw.numbered hx.numbered,
    Schedule.nudged_nudge _, ?_, ?_, hx.apart⟩
  · intro d hd
    rw [hw.dispatcher] at hd
    rw [htask, hw.bus]
    exact hx.dispatcher d hd
  · intro r' hr'
    by_cases hne : r'.id = r.id
    · obtain rfl := eq_of_id hids hr hr' hne
      have hreply : (x.reply r' o).reply? r'.id = some (x.world.stamp (o.replyTo r')) := if_pos rfl
      have hphase := hx.phase r' hr'
      rw [h] at hphase
      rw [hreply]
      exact hphase.reply hx.agrees hx.nobody hw.bus fun t a _ ha =>
        ⟨(htask t).trans ha, fun ht => hw.kept t ht⟩
    · have hreply : (x.reply r o).reply? r'.id = x.reply? r'.id := if_neg hne
      rw [hreply]
      refine (hx.phase r' hr').frame ?_ fun t a _ ha => ⟨(htask t).trans ha, fun ht => hw.kept t ht⟩
      rw [hw.bus]
      exact Bus.quiet_publish _ (Ne.symm (replyChannel_ne hne))

theorem Inv.recv {x : Exchange} (hx : Inv requests x) {r : Message} (hr : r ∈ requests)
    (h : x.waiter? r.id = none) : Inv requests (x.recv r) := by
  have hold : ∀ t a, Stands x.world t a →
      Stands (x.recv r).world t a ∧ (t ∈ x.world.ready → t ∈ (x.recv r).world.ready) :=
    fun t a ha => ⟨Schedule.task?_spawnRole_of_some ha _, fun ht => List.mem_append_left _ ht⟩
  have hlt : ∀ r' ∈ requests, ∀ t, x.waiter? r'.id = some t → t < x.world.nextTask := by
    intro r' hr' t ht
    have hphase := hx.phase r' hr'
    rw [ht] at hphase
    obtain ⟨a, ha⟩ := hphase.stands
    exact hx.numbered _ (Schedule.task?_eq_some ha).1
  refine ⟨hx.agrees, hx.nobody, Schedule.numbered_spawnRole hx.numbered _, ?_, ?_, ?_, ?_⟩
  · intro d hd hq
    exact List.mem_append_left _ (hx.nudged d hd hq)
  · intro d hd
    obtain ⟨htask, hc⟩ := hx.dispatcher d hd
    exact ⟨Schedule.task?_spawnRole_of_some htask _, hc⟩
  · intro r' hr'
    by_cases hne : r'.id = r.id
    · obtain rfl := eq_of_id hids hr hr' hne
      have hwaiter : (x.recv r').waiter? r'.id = some x.world.nextTask := if_pos rfl
      have hphase := hx.phase r' hr'
      rw [h] at hphase
      rw [hwaiter]
      cases hphase with
      | unheard bus =>
        exact .fresh (Schedule.task?_spawnRole hx.numbered _)
          (List.mem_append_right _ (List.mem_singleton_self _)) bus
    · have hwaiter : (x.recv r).waiter? r'.id = x.waiter? r'.id := if_neg hne
      rw [hwaiter]
      exact (hx.phase r' hr').frame (.refl _ _) fun t a _ ha => hold t a ha
  · intro r₁ h₁ r₂ h₂ t ht₁ ht₂
    simp only [Exchange.recv] at ht₁ ht₂
    split at ht₁
    · next he₁ =>
      split at ht₂
      · next he₂ => rw [he₁, he₂]
      · cases ht₁
        exact absurd (hlt r₂ h₂ _ ht₂) (Nat.lt_irrefl _)
    · split at ht₂
      · cases ht₂
        exact absurd (hlt r₁ h₁ _ ht₁) (Nat.lt_irrefl _)
      · exact hx.apart r₁ h₁ r₂ h₂ t ht₁ ht₂

/-! ## Turns -/

/-- A task that waits has no other request. -/
theorem Inv.eq_of_waiter {x : Exchange} (hx : Inv requests x) {r r' : Message} (hr : r ∈ requests)
    (hr' : r' ∈ requests) {t : TaskId} (ht : x.waiter? r.id = some t)
    (ht' : x.waiter? r'.id = some t) : r' = r :=
  eq_of_id hids hr hr' (hx.apart r' hr' r hr t ht' ht)

/-- The turn of a task that waits changes where that task stands, and the bus on the channel of its
request at most. -/
theorem Inv.placed {x : Exchange} (hx : Inv requests x) {r : Message} (hr : r ∈ requests)
    {t : TaskId} (ht : x.waiter? r.id = some t) {rest : List TaskId}
    (hready : x.world.ready = t :: rest)
    {b : Bus Message} {w : World} (hw : Schedule.Roused { x.world with ready := rest, bus := b } w)
    {a : Activity} (hagrees : b.Agrees) (hnobody : b.under .universal = [])
    (hconnected : b.connected = x.world.bus.connected) (hnudged : w.Nudged)
    (hquiet : ∀ c, c ≠ r.replyChannel → x.world.bus.Quiet c b)
    (hphase : Phase (w.place t a) r.replyChannel (x.reply? r.id) (some t)) :
    Inv requests { x with world := w.place t a } := by
  obtain rfl : b = w.bus := hw.bus.symm
  have htask : ∀ i y, i ≠ t → x.world.task? i = some y → (w.place t a).task? i = some y := by
    intro i y hi hy
    exact (Schedule.task?_place_of_ne w hi a).trans ((hw.task? i).trans hy)
  have hdue : ∀ i, i ≠ t → i ∈ x.world.ready → i ∈ (w.place t a).ready := by
    intro i hi hmem
    rw [hready] at hmem
    exact hw.kept i ((List.mem_cons.1 hmem).resolve_left hi)
  obtain ⟨a', ha'⟩ : ∃ a', Stands x.world t a' := by
    have := hx.phase r hr
    rw [ht] at this
    exact this.stands
  refine ⟨hagrees, hnobody, Schedule.numbered_place (hw.numbered hx.numbered) t a, hnudged, ?_, ?_,
    hx.apart⟩
  · intro d hd
    obtain ⟨hd', hc⟩ := hx.dispatcher d (hw.dispatcher ▸ hd)
    refine ⟨htask d _ ?_ hd', hconnected.trans hc⟩
    rintro rfl
    cases hd'.symm.trans ha'
  · intro r' hr'
    by_cases hwaits : x.waiter? r'.id = some t
    · obtain rfl := hx.eq_of_waiter hids hr hr' ht hwaits
      rw [ht]
      exact hphase
    · have hne : r'.id ≠ r.id := fun he => hwaits (he ▸ ht)
      refine (hx.phase r' hr').frame (hquiet _ (replyChannel_ne hne)) fun i y hi hy => ?_
      have hit : i ≠ t := by
        rintro rfl
        exact hwaits hi
      exact ⟨htask i _ hit hy, hdue i hit⟩

omit hids in
/-- Without a task that is not the dispatcher, the dispatcher is still queued when it has to be. -/
theorem Inv.nudged_rest {x : Exchange} (hx : Inv requests x) {t : TaskId} {a : Activity}
    (ht : Stands x.world t a) {rest : List TaskId} (hready : x.world.ready = t :: rest)
    {b : Bus Message} (hb : b.backend.queue = x.world.bus.backend.queue) :
    Schedule.Nudged { x.world with ready := rest, bus := b } := by
  intro d hd hq
  have hmem := hx.nudged d hd (hb ▸ hq)
  rw [hready] at hmem
  refine (List.mem_cons.1 hmem).resolve_left ?_
  rintro rfl
  cases (hx.dispatcher d hd).1.symm.trans ht

omit hids in
theorem stands_place {w w' : World} {t : TaskId} {a' : Activity} (h : Stands w t a')
    (hw : w'.tasks = w.tasks) (a : Activity) : Stands (w'.place t a) t a := by
  rw [Stands, Schedule.task?_place, Schedule.task?, hw]
  rw [show List.find? _ _ = _ from h, Option.map_some, if_pos rfl]

omit hids in
theorem poll_of_waiting {id : SubscriptionId} {next : Message → Job Message} {w : World}
    (h : w.peek id = .waiting) :
    Working.poll (.receiving [] id next) w = (w, .pending (.receiving [] id next)) := by
  simp only [Working.poll, h]

omit hids in
theorem poll_of_event {id : SubscriptionId} {next : Message → Job Message} {w : World}
    {e : Event Message} (h : w.peek id = .event e) :
    Working.poll (.receiving [] id next) w = (next e.payload).run [] ((w.taken id).release id) := by
  simp only [Working.poll, h]

/-- What the turn of a task that waits comes to: it begins to listen, finds nothing to do, or reads
the reply. Here `w` is the world in which it takes its turn. -/
inductive Waited (w : World) (t : TaskId) (c : String) (reply? : Option Message) : World → Prop
  | listens (task : Stands w t (.errand (.fresh (.recv c))))
    (bus : w.bus.Parked c (events c reply?)) :
    Waited w t c reply? ((w.listen c).place t (.errand (.receiving [] w.nextSubscription .finish)))
  | stays {a : Activity} (task : Stands w t a)
    (phase : Phase (w.place t a) c reply? (some t)) : Waited w t c reply? (w.place t a)
  | reads {id : SubscriptionId} {m : Message} (task : Stands w t (.errand (.receiving [] id .finish)))
    (own : reply? = some m) (bus : w.bus.Served c id [⟨c, m⟩] []) :
    Waited w t c reply? (((w.taken id).release id).place t (.errandDone (.ok m)))

omit hids in
theorem Inv.waited {x : Exchange} (hx : Inv requests x) {r : Message} (hr : r ∈ requests)
    {t : TaskId} (ht : x.waiter? r.id = some t) {rest : List TaskId}
    (hready : x.world.ready = t :: rest) :
    Waited { x.world with ready := rest } t r.replyChannel (x.reply? r.id) x.turn.world := by
  have hphase := hx.phase r hr
  rw [ht] at hphase
  let w : World := { x.world with ready := rest }
  rw [show x.turn.world = x.world.step program from rfl]
  cases hphase with
  | fresh task due bus =>
    rw [Schedule.step_own hready task]
    exact .listens (w := w) task bus
  | @receiving _ id es l task due bus all =>
    have hturn : x.world.step program =
        Schedule.settleTurn t (errandTurn (Working.poll (.receiving [] id .finish) w)) :=
      Schedule.step_own hready task
    rw [hturn]
    cases es with
    | nil =>
      rw [poll_of_waiting (show w.peek id = .waiting from bus.read_nil)]
      exact .stays (w := w) task
        (.receiving (stands_place task rfl _) (fun hes => absurd rfl hes) bus all)
    | cons e es =>
      obtain ⟨rfl, rfl, m, hm, rfl⟩ : es = [] ∧ l = [] ∧ ∃ m, x.reply? r.id = some m ∧
          e = ⟨r.replyChannel, m⟩ := by
        cases hm : x.reply? r.id with
        | none => simp [events, hm] at all
        | some m => simp_all [events]
      rw [poll_of_event (show w.peek id = _ from bus.read_cons.1)]
      exact .reads (w := w) task hm bus
  | done task own bus =>
    rw [Schedule.step_own hready task]
    exact .stays (w := w) task (.done (stands_place task rfl _) own bus)

/-- The turn of a task that waits. -/
theorem Inv.turn_waiter {x : Exchange} (hx : Inv requests x) {r : Message} (hr : r ∈ requests)
    {t : TaskId} (ht : x.waiter? r.id = some t) {rest : List TaskId}
    (hready : x.world.ready = t :: rest) : Inv requests x.turn := by
  let w : World := { x.world with ready := rest }
  have hwaited := hx.waited hr ht hready
  have hturn : x.turn = { x with world := x.turn.world } := rfl
  rw [hturn]
  generalize x.turn.world = next at hwaited ⊢
  cases hwaited with
  | listens task bus =>
    have hw := Schedule.roused_nudge { w with bus := w.bus.subscribe (.channel r.replyChannel) }
    have hnobody :=
      hx.agrees.nobody_act hx.nobody (a := .subscribe (.channel r.replyChannel)) (by simp)
    refine hx.placed hids hr ht hready hw (hx.agrees.subscribe _) hnobody rfl
      (Schedule.nudged_nudge _) (fun c hc => ?_) ?_
    · exact hx.agrees.quiet_subscribe (by simpa [Scope.covers] using Ne.symm hc)
    · refine .receiving (stands_place task hw.tasks _) (fun hes => absurd rfl hes) ?_
        (List.nil_append _)
      rw [show ((Schedule.nudge _).place t _).bus = _ from hw.bus]
      exact bus.subscribe hx.agrees
  | stays task phase =>
    exact hx.placed hids hr ht hready (.refl w) hx.agrees hx.nobody rfl
      (hx.nudged_rest task hready rfl) (fun c _ => .refl c _) phase
  | @reads id m task own bus =>
    have hread := hx.agrees.act (.read id)
    have hnobody := hx.agrees.nobody_act hx.nobody (a := .read id) (by simp)
    have hquiet : ∀ c, c ≠ r.replyChannel →
        x.world.bus.Quiet c ((x.world.bus.read id).2.release id) := by
      intro c hc
      have hid : (id, .channel c) ∉ x.world.bus.roster := fun hid => by
        have hmem := Bus.mem_under.1 (bus.listeners ▸ List.mem_singleton_self id)
        exact hc (Scope.channel.inj (hx.agrees.scope_unique hid hmem))
      refine (Bus.quiet_read x.world.bus hid).trans (hread.quiet_drop ?_)
      exact (Bus.roster_read x.world.bus id).symm ▸ hid
    have hconnected : ((x.world.bus.read id).2.release id).connected = x.world.bus.connected :=
      (Bus.connected_act _ (a := .drop id) (by simp) (by simp)).trans
        (Bus.connected_act x.world.bus (a := .read id) (by simp) (by simp))
    have hqueue : ((x.world.bus.read id).2.release id).backend.queue = x.world.bus.backend.queue :=
      (Bus.release_lists _ id).1.trans (congrArg Backend.queue (Bus.backend_read x.world.bus id))
    exact hx.placed hids hr ht hready (.refl ((w.taken id).release id)) (hread.act (.drop id))
      (hread.nobody_act hnobody (a := .drop id) (by simp)) hconnected
      (hx.nudged_rest task hready hqueue) hquiet
      (.done (stands_place task rfl _) own (bus.read_cons.2.drop hread))

omit hids in
/-- A request when the next event is handed out. -/
theorem Phase.dispatch {w w' : World} {c : String} {reply? : Option Message}
    {waiter? : Option TaskId} (h : Phase w c reply? waiter?) (ha : w.bus.Agrees)
    (hc : w.bus.connected = true) {e : Event Message} {rest : List (Event Message)}
    (hq : w.bus.backend.queue = e :: rest) (hbus : w'.bus = w.bus.dispatch)
    (htask : ∀ t a, Stands w t a → Stands w' t a ∧ (t ∈ w.ready → t ∈ w'.ready))
    (hmail : ∀ i ∈ w.bus.recipients e.channel, ∀ t ∈ w.tasks,
      Schedule.heeds (.mail i) t = true → t.id ∈ w'.ready) : Phase w' c reply? waiter? := by
  by_cases he : e.channel = c
  · have hqueue : Event.on c w.bus.backend.queue ≠ [] := by
      rw [hq, Event.on, List.filter_cons, if_pos (by rw [he, beq_self_eq_true])]
      exact List.cons_ne_nil _ _
    cases h with
    | unheard bus => exact absurd bus.queue hqueue
    | fresh task due bus => exact absurd bus.queue hqueue
    | done task own bus => exact absurd bus.queue hqueue
    | @receiving t id es l task due bus all =>
      obtain ⟨l', rfl, hserved⟩ := bus.dispatch ha hc hq he
      refine .receiving (htask t _ task).1 (fun _ => ?_) (hbus ▸ hserved) (by simpa using all)
      refine hmail id ?_ _ (Schedule.task?_eq_some task).1 (by
        simp [Schedule.heeds, Standing.awaits, Activity.awaits, Activity.holds, Working.holds])
      refine List.mem_append_left _ ?_
      rw [he, show w.bus.table.mailboxes c = _ from ha.listed (.channel c), bus.listeners]
      exact List.mem_singleton_self id
  · refine h.frame (hbus ▸ ha.quiet_dispatch ?_) fun t a _ hstands => htask t a hstands
    rw [Bus.handsOut_cons hc hq]
    exact Bus.on_singleton_of_ne he

omit hids in
/-- What the turn of the dispatcher comes to: there is nothing to hand out, or it hands out the
oldest event, and whoever has that in a mailbox is queued with the dispatcher. -/
theorem Inv.dispatched {x : Exchange} (hx : Inv requests x) {d : TaskId}
    (hd : x.world.dispatcher = some d) {rest : List TaskId} (hready : x.world.ready = d :: rest) :
    (x.world.bus.backend.queue = [] ∧ x.turn = { x with world := { x.world with ready := rest } }) ∨
      ∃ e queue, x.world.bus.backend.queue = e :: queue ∧
        Schedule.Roused { x.world with ready := rest, bus := x.world.bus.dispatch } x.turn.world ∧
        d ∈ x.turn.world.ready ∧
        ∀ i ∈ x.world.bus.recipients e.channel, ∀ t ∈ x.world.tasks,
          Schedule.heeds (.mail i) t = true → t.id ∈ x.turn.world.ready := by
  let w : World := { x.world with ready := rest }
  have hturn : x.turn = { x with world := w.dispatchTurn d } := by
    rw [turn, Schedule.step_dispatcher hready (hx.dispatcher d hd).1]
  rw [hturn]
  cases hq : x.world.bus.backend.queue with
  | nil =>
    refine .inl ⟨rfl, ?_⟩
    rw [Schedule.dispatchTurn_of_rest (s := w) hq]
  | cons e queue => exact .inr ⟨e, queue, rfl, Schedule.dispatchTurn_spec (s := w) hq d⟩

omit hids in
/-- The turn of the dispatcher. -/
theorem Inv.turn_dispatcher {x : Exchange} (hx : Inv requests x) {d : TaskId}
    (hd : x.world.dispatcher = some d) {rest : List TaskId} (hready : x.world.ready = d :: rest) :
    Inv requests x.turn := by
  obtain ⟨htask, hc⟩ := hx.dispatcher d hd
  have hrest : ∀ t a, Stands x.world t a → t ∈ x.world.ready → t ∈ rest := by
    intro t a ha ht
    rw [hready] at ht
    refine (List.mem_cons.1 ht).resolve_left ?_
    rintro rfl
    cases ha.symm.trans htask
  rcases hx.dispatched hd hready with ⟨hq, hturn⟩ | ⟨e, queue, hq, hw, hmem, hmail⟩
  · rw [hturn]
    exact ⟨hx.agrees, hx.nobody, hx.numbered, fun _ _ hne => absurd hq hne, hx.dispatcher,
      fun r hr => (hx.phase r hr).frame (.refl _ _) fun t a _ ha => ⟨ha, hrest t a ha⟩, hx.apart⟩
  · have hsame : ∀ t, x.turn.world.task? t = x.world.task? t := hw.task?
    refine ⟨hw.bus ▸ hx.agrees.dispatch, ?_, hw.numbered hx.numbered, ?_, ?_, fun r hr => ?_,
      hx.apart⟩
    · exact hw.bus ▸ hx.agrees.nobody_act hx.nobody (a := .dispatch) (by simp)
    · intro d' hd' _
      rw [hw.dispatcher] at hd'
      cases hd.symm.trans hd'
      exact hmem
    · intro d' hd'
      rw [hw.dispatcher] at hd'
      rw [hsame, hw.bus]
      exact ⟨(hx.dispatcher d' hd').1,
        (Bus.connected_act x.world.bus (a := .dispatch) (by simp) (by simp)).trans hc⟩
    · exact (hx.phase r hr).dispatch hx.agrees hc hq hw.bus
        (fun t a ha => ⟨(hsame t).trans ha, fun ht => hw.kept t (hrest t a ha ht)⟩) hmail

/-! ## Traffic -/

omit hids in
/-- A call that is foreign to the requests, and the tasks that it rouses. -/
theorem traffic_of_roused {x : Exchange} {a : Bus.Act Message}
    (ha : foreign (requests.map (·.replyChannel)) x.world.bus a) {stamped : Nat} {w : World}
    (h : Schedule.Roused { x.world with stamped, bus := x.world.bus.act a } w) (hn : w.Nudged) :
    Traffic requests x w :=
  ⟨.inr ⟨a, ha, h.bus⟩, h.dispatcher, fun hx => h.numbered hx, fun _ => hn, fun t _ =>
    ⟨h.task? t, h.kept t⟩⟩

omit hids in
theorem traffic_send {x : Exchange} {o : Outgoing}
    (h : o.channel ∉ requests.map (·.replyChannel)) : Traffic requests x (x.world.send o) :=
  traffic_of_roused (a := .publish ⟨o.channel, x.world.stamp o⟩) h (roused_send x.world o)
    (Schedule.nudged_nudge _)

omit hids in
theorem traffic_listen {x : Exchange} {channel : String}
    (h : channel ∉ requests.map (·.replyChannel)) : Traffic requests x (x.world.listen channel) :=
  traffic_of_roused (a := .subscribe (.channel channel)) h (Schedule.roused_nudge _)
    (Schedule.nudged_nudge _)

omit hids in
/-- Somebody starts a task of his own, which is due after the others. -/
theorem traffic_spawn {x : Exchange} (hx : Inv requests x) (a : Activity) :
    Traffic requests x (x.world.spawn a) := by
  refine ⟨.inl rfl, rfl, fun h => Schedule.numbered_spawnRole h _, fun h d hd hq =>
    List.mem_append_left _ (h d hd hq), fun t ht => ⟨?_, fun hmem => List.mem_append_left _ hmem⟩⟩
  obtain ⟨y, hy⟩ : ∃ y, x.world.task? t = some y := by
    rcases ht with hd | ⟨r, hr, ht⟩
    · exact ⟨_, (hx.dispatcher t hd).1⟩
    · have hphase := hx.phase r hr
      rw [ht] at hphase
      exact ⟨_, hphase.stands.choose_spec⟩
  exact (Schedule.task?_spawnRole_of_some hy _).trans hy.symm

omit hids in
theorem spares_of_foreign {own : List String} {b : Bus Message} {a : Bus.Act Message}
    (h : foreign own b a) {c : String} (hc : c ∈ own) : a.spares c b := by
  cases a with
  | publish e =>
    rintro rfl
    exact h hc
  | subscribe scope =>
    cases scope with
    | channel d =>
      have hne : d ≠ c := by
        rintro rfl
        exact h hc
      simpa [Bus.Act.spares, Scope.covers] using hne
    | universal => exact h.elim
  | drop id => exact h c hc
  | read id => exact h c hc
  | _ => exact h.elim

omit hids in
theorem Inv.traffic {x : Exchange} (hx : Inv requests x) {w : World} (h : Traffic requests x w) :
    Inv requests { x with world := w } := by
  have hbus : w.bus.Agrees ∧ w.bus.under .universal = [] ∧
      w.bus.connected = x.world.bus.connected ∧
      ∀ r ∈ requests, x.world.bus.Quiet r.replyChannel w.bus := by
    rcases h.bus with hw | ⟨a, ha, hw⟩
    · rw [hw]
      exact ⟨hx.agrees, hx.nobody, rfl, fun r _ => .refl _ _⟩
    · rw [hw]
      refine ⟨hx.agrees.act a, hx.agrees.nobody_act hx.nobody ?_, Bus.connected_act _ ?_ ?_,
        fun r hr => hx.agrees.quiet_act (spares_of_foreign ha (List.mem_map_of_mem hr))⟩
      · rintro rfl
        exact ha
      · rintro _ rfl
        exact ha
      · rintro rfl
        exact ha
  obtain ⟨hagrees, hnobody, hconnected, hquiet⟩ := hbus
  refine ⟨hagrees, hnobody, h.numbered hx.numbered, h.nudged hx.nudged, ?_, fun r hr => ?_,
    hx.apart⟩
  · intro d hd
    rw [h.dispatcher] at hd
    obtain ⟨htask, hc⟩ := hx.dispatcher d hd
    exact ⟨(h.tasks d (.inl hd)).1.trans htask, hconnected.trans hc⟩
  · refine (hx.phase r hr).frame (hquiet r hr) fun t a ht ha => ?_
    obtain ⟨htask, hdue⟩ := h.tasks t (.inr ⟨r, hr, ht⟩)
    exact ⟨htask.trans ha, hdue⟩

/-! ## Whole runs -/

/-- Every step keeps the invariant. -/
theorem Inv.step {x y : Exchange} (hx : Inv requests x) (h : Step requests x y) :
    Inv requests y := by
  cases h with
  | connect h => exact hx.connect h
  | reply hr h o => exact hx.reply hids hr h o
  | recv hr h => exact hx.recv hids hr h
  | turn hready ht =>
    rcases ht with hd | ⟨r, hr, ht⟩
    · exact hx.turn_dispatcher hd hready
    · exact hx.turn_waiter hids hr ht hready
  | traffic h => exact hx.traffic h

theorem inv_of_reached {x : Exchange} (h : Reached requests x) : Inv requests x := by
  induction h with
  | start shared => exact inv_start requests shared
  | step _ hstep ih => exact ih.step hids hstep

/-- The reply to a request is published on the channel of that request. -/
theorem channel_of_reply {x : Exchange} (h : Reached requests x) {r : Message} (hr : r ∈ requests)
    {m : Message} (hm : x.reply? r.id = some m) : m.channel = r.replyChannel := by
  induction h with
  | start shared => cases hm
  | step _ hstep ih =>
    cases hstep with
    | @reply r' hr' _ o =>
      simp only [Exchange.reply] at hm
      split at hm
      · next he =>
        cases hm
        rw [eq_of_id hids hr' hr he]
        rfl
      · exact ih hm
    | _ => exact ih hm

end

/-- A task that has returned has returned the reply to its own request. -/
theorem Inv.returned {requests : List Message} {x : Exchange} (hx : Inv requests x) {r : Message}
    (hr : r ∈ requests) {t : TaskId} (ht : x.waiter? r.id = some t) {result : Except Error Message}
    (hres : x.world.standing? t = some (.errandDone result)) :
    ∃ m, x.reply? r.id = some m ∧ result = .ok m := by
  have hphase := hx.phase r hr
  rw [ht] at hphase
  cases hphase with
  | fresh task => cases (standing?_of_stands task).symm.trans hres
  | receiving task => cases (standing?_of_stands task).symm.trans hres
  | done task own bus =>
    cases (standing?_of_stands task).symm.trans hres
    exact ⟨_, own, rfl⟩

/-- The task has returned the message, and the channel is as if it had never been. -/
structure Found (w : World) (c : String) (t : TaskId) (m : Message) : Prop where
  returned : w.standing? t = some (.errandDone (.ok m))
  unheard : w.bus.backend.isSubscribed c = false
  unbuffered : w.bus.backend.bufferedCount c = 0

/-- At rest, after the stream has been started, a task that waits for a reply that was given has
found it. -/
theorem Inv.at_rest {requests : List Message} {x : Exchange} (hx : Inv requests x)
    (hstarted : x.world.dispatcher ≠ none) (hrest : ∀ i ∈ x.world.ready, ¬x.owns requests i)
    {r : Message} (hr : r ∈ requests) {t : TaskId} (ht : x.waiter? r.id = some t) {m : Message}
    (hm : x.reply? r.id = some m) :
    Found x.world r.replyChannel t m := by
  have hphase := hx.phase r hr
  rw [ht] at hphase
  have howned : x.owns requests t := .inr ⟨r, hr, ht⟩
  cases hphase with
  | fresh task due bus => exact absurd howned (hrest t due)
  | @receiving _ _ es l task due bus all =>
    obtain ⟨d, hd⟩ := Option.ne_none_iff_exists'.1 hstarted
    have hqueue : x.world.bus.backend.queue = [] := by
      by_contra hq
      exact hrest d (hx.nudged d hd hq) (.inl hd)
    have hes : es = [] := by
      by_contra hes
      exact hrest t (due hes) howned
    have hl : l = [] := by
      rw [← bus.queue, hqueue]
      rfl
    rw [hes, hl, hm] at all
    cases all
  | done task own bus =>
    cases own.symm.trans hm
    refine ⟨standing?_of_stands task, bus.isSubscribed hx.agrees, ?_⟩
    rw [Backend.bufferedCount, List.countP_eq_length_filter]
    exact congrArg List.length bus.missed

end Exchange
end Parley
