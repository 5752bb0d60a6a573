import Parley.Bus.Backend

/-!
# The broadcast bus

A bus hands every event to each subscription that covers its channel. `Table` is the register of
the mailboxes that receive, `subscriptions` are the mailboxes themselves, and the backend decides
what waits. A channel is live in the backend exactly while the table lists a mailbox for it.

A bus does its own work only in `dispatch`, one event at a time, and only while it is connected.
-/

set_option autoImplicit false

namespace Parley

abbrev SubscriptionId := Nat

inductive Scope
  | channel (name : String)
  | universal
  deriving DecidableEq, Repr

namespace Scope

def covers : Scope → String → Bool
  | channel name, c => name == c
  | universal, _ => true

def channel? : Scope → Option String
  | channel name => some name
  | universal => none

end Scope

inductive Delivery (α : Type)
  | event (e : Event α)
  /-- The bus was disconnected; nothing after this is read. -/
  | closed
  deriving Repr

inductive Reading (α : Type)
  | event (e : Event α)
  | closed
  | waiting
  deriving Repr

structure Subscription (α : Type) where
  id : SubscriptionId
  scope : Scope
  inbox : List (Delivery α) := []
  /-- The mark of the end has been read. -/
  closed : Bool := false
  deriving Repr

namespace Subscription

variable {α : Type}

def receive (s : Subscription α) (d : Delivery α) : Subscription α :=
  { s with inbox := s.inbox ++ [d] }

/-- Reads the next event. Once the end has been read, nothing else is. -/
def read (s : Subscription α) : Reading α × Subscription α :=
  if s.closed then (.closed, s)
  else match s.inbox with
    | [] => (.waiting, s)
    | .event e :: rest => (.event e, { s with inbox := rest })
    | .closed :: rest => (.closed, { s with inbox := rest, closed := true })

theorem read_of_closed {s : Subscription α} (h : s.closed = true) : s.read = (.closed, s) :=
  if_pos h

theorem id_read (s : Subscription α) : s.read.2.id = s.id := by
  unfold read
  split
  · rfl
  · split <;> rfl

end Subscription

/-- The register of the mailboxes that receive events. -/
structure Table where
  /-- For each channel its mailboxes, in the order in which they were registered. -/
  channels : List (String × List SubscriptionId) := []
  universal : List SubscriptionId := []
  nextId : SubscriptionId := 0
  deriving Repr

namespace Table

def has (t : Table) (channel : String) : Bool := t.channels.any (·.1 == channel)

def mailboxes (t : Table) (channel : String) : List SubscriptionId :=
  (t.channels.lookup channel).getD []

/-- The mailboxes that an event on the channel goes to, in this order. -/
def recipients (t : Table) (channel : String) : List SubscriptionId :=
  t.mailboxes channel ++ t.universal

def all (t : Table) : List SubscriptionId := t.channels.flatMap (·.2) ++ t.universal

def register (t : Table) (scope : Scope) : Table :=
  match scope with
  | .universal => { t with universal := t.universal ++ [t.nextId], nextId := t.nextId + 1 }
  | .channel c =>
    { t with
      nextId := t.nextId + 1
      channels :=
        if t.has c then
          t.channels.map fun e => if e.1 == c then (e.1, e.2 ++ [t.nextId]) else e
        else t.channels ++ [(c, [t.nextId])] }

/-- Strikes a mailbox off the register; a channel without mailboxes has no entry. -/
def strike (t : Table) (id : SubscriptionId) (scope : Scope) : Table :=
  match scope with
  | .universal => { t with universal := t.universal.filter (· != id) }
  | .channel c =>
    { t with
      channels := (t.channels.map fun e =>
        if e.1 == c then (e.1, e.2.filter (· != id)) else e).filter (!·.2.isEmpty) }

def isListed (t : Table) : Scope → Bool
  | .universal => !t.universal.isEmpty
  | .channel c => t.has c

theorem nextId_register (t : Table) (scope : Scope) : (t.register scope).nextId = t.nextId + 1 := by
  cases scope <;> rfl

theorem nextId_strike (t : Table) (id : SubscriptionId) (scope : Scope) :
    (t.strike id scope).nextId = t.nextId := by
  cases scope <;> rfl

theorem isListed_register (t : Table) (scope : Scope) : (t.register scope).isListed scope = true := by
  cases scope with
  | universal => simp [register, isListed]
  | channel c =>
    by_cases h : t.has c = true
    · obtain ⟨e, he, hc⟩ := List.any_eq_true.1 h
      refine List.any_eq_true.2 ⟨(e.1, e.2 ++ [t.nextId]), ?_, hc⟩
      simp only [register, h, if_true]
      exact List.mem_map.2 ⟨e, he, by rw [if_pos hc]⟩
    · refine List.any_eq_true.2 ⟨(c, [t.nextId]), ?_, beq_self_eq_true c⟩
      simp only [register, h]
      exact List.mem_append_right _ List.mem_cons_self

end Table

structure Bus (α : Type) where
  backend : Backend α := {}
  table : Table := {}
  /-- The subscriptions that have not been dropped. -/
  subscriptions : List (Subscription α) := []
  connected : Bool := false

namespace Bus

variable {α : Type}

def subscription? (b : Bus α) (id : SubscriptionId) : Option (Subscription α) :=
  b.subscriptions.find? (·.id == id)

def modify (b : Bus α) (id : SubscriptionId) (f : Subscription α → Subscription α) : Bus α :=
  { b with subscriptions := b.subscriptions.map fun s => if s.id == id then f s else s }

def subscriberCount (b : Bus α) (channel : String) : Nat := (b.table.mailboxes channel).length

def hasChannel (b : Bus α) (channel : String) : Bool := b.table.has channel

def universalCount (b : Bus α) : Nat := b.table.universal.length

def isIdle (b : Bus α) : Bool := b.backend.isIdle

/-! ## Listening -/

def nextId (b : Bus α) : SubscriptionId := b.table.nextId

/-- Tells the backend of the first listener under `scope`. -/
def open? (backend : Backend α) : Scope → Backend α
  | .channel c => backend.subscribe c
  | .universal => backend.universalSubscribe

/-- A new subscription, with the identifier `nextId`. The first one under its scope has the backend
replay what was held back. -/
def subscribe (b : Bus α) (scope : Scope) : Bus α :=
  { b with
    backend := if b.table.isListed scope then b.backend else open? b.backend scope
    table := b.table.register scope
    subscriptions := b.subscriptions ++ [{ id := b.nextId, scope }] }

/-- Tells the backend that nobody listens under `scope` any more. -/
def shut (backend : Backend α) : Scope → Except BusError (Backend α)
  | .channel c => backend.unsubscribe c
  | .universal => backend.universalUnsubscribe

/-- Drops a subscription. The second part is the backend's complaint, if the register and the
backend disagree about the scope. -/
def releaseReport (b : Bus α) (id : SubscriptionId) : Bus α × Option BusError :=
  match b.subscription? id with
  | none => (b, none)
  | some s =>
    let table := b.table.strike id s.scope
    let rest := b.subscriptions.filter (·.id != id)
    -- the backend hears of it only when this was the last one under its scope
    if b.table.isListed s.scope && !table.isListed s.scope then
      match shut b.backend s.scope with
      | .ok backend => ({ b with backend, table, subscriptions := rest }, none)
      | .error e => ({ b with table, subscriptions := rest }, some e)
    else ({ b with table, subscriptions := rest }, none)

/-- Drops a subscription. The last one under its scope has the backend hold events back again. -/
def release (b : Bus α) (id : SubscriptionId) : Bus α := (b.releaseReport id).1

def read (b : Bus α) (id : SubscriptionId) : Reading α × Bus α :=
  match b.subscription? id with
  | none => (.closed, b)
  | some s => (s.read.1, b.modify id fun s => s.read.2)

/-! ## Publishing and handing out -/

def publish (b : Bus α) (event : Event α) : Bus α := { b with backend := b.backend.publish event }

def deliver (d : Delivery α) (b : Bus α) (id : SubscriptionId) : Bus α :=
  b.modify id (·.receive d)

def recipients (b : Bus α) (channel : String) : List SubscriptionId := b.table.recipients channel

def fanOut (b : Bus α) (event : Event α) : Bus α :=
  (b.recipients event.channel).foldl (deliver (.event event)) b

/-- One step of the dispatcher: hands out the oldest queued event, if the bus is connected and there
is one. -/
def dispatch (b : Bus α) : Bus α :=
  if b.connected then
    match b.backend.next? with
    | none => b
    | some (event, backend) =>
      -- who listens now gets it, whoever listened when it was published
      let b := { b with backend }.fanOut event
      { b with backend := b.backend.taskDone }
  else b

/-! ## Connecting -/

/-- Connects the bus; `runtime` says whether there is anything to run the dispatcher. -/
def connect (b : Bus α) (runtime : Bool) : Except BusError (Bus α) :=
  if !runtime then .error .noRuntime
  else if b.connected then .error .alreadyConnected
  else .ok { b with connected := true }

/-- Takes the dispatcher off the bus. What is queued stays queued. -/
def detach (b : Bus α) : Bus α := { b with connected := false }

def closeAll (b : Bus α) : Bus α := b.table.all.foldl (deliver .closed) b

/-- Disconnects the bus and closes every subscription. -/
def disconnect (b : Bus α) : Bus α := b.detach.closeAll

/-! ## What deliveries leave alone -/

theorem backend_deliver (d : Delivery α) (b : Bus α) (id : SubscriptionId) :
    (deliver d b id).backend = b.backend := rfl

theorem foldl_deliver_backend (d : Delivery α) (ids : List SubscriptionId) (b : Bus α) :
    (ids.foldl (deliver d) b).backend = b.backend := by
  induction ids generalizing b with
  | nil => rfl
  | cons id ids ih => exact ih _

theorem foldl_deliver_table (d : Delivery α) (ids : List SubscriptionId) (b : Bus α) :
    (ids.foldl (deliver d) b).table = b.table := by
  induction ids generalizing b with
  | nil => rfl
  | cons id ids ih => exact ih _

theorem backend_fanOut (b : Bus α) (event : Event α) : (b.fanOut event).backend = b.backend :=
  foldl_deliver_backend _ _ _

theorem table_fanOut (b : Bus α) (event : Event α) : (b.fanOut event).table = b.table :=
  foldl_deliver_table _ _ _

theorem backend_disconnect (b : Bus α) : b.disconnect.backend = b.backend :=
  foldl_deliver_backend _ _ _

end Bus
end Parley
