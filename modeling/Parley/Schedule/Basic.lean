import Parley.Bus.Basic

/-!
# Tasks around a bus

One thread runs tasks around one bus, first come, first served, with a clock of its own. A task that
waits is roused by a signal and then queues for a turn; a task that is already queued is not queued
twice. The dispatcher of the bus is a task like the others. `step` is one turn, and `settle` takes
turns until no task is ready. When a millisecond passes, tasks that are ready take their turns
before sleepers are woken.

What a task does is given by a `Program`, where it stands by a type of standings. `rouse_rouse`,
`settle_of_rest` and `advance_add` are the first laws of turns and time.
-/

set_option autoImplicit false

namespace Parley

abbrev TaskId := Nat

inductive Signal
  | mail (subscription : SubscriptionId)
  /-- Sleepers are woken up to this time. -/
  | clock (now : Nat)
  /-- All queued events have been handed out. -/
  | idle
  | ended (task : TaskId)
  /-- The user interrupts from the keyboard. -/
  | interruptKey
  /-- The user has entered a line, or will enter no more. -/
  | line
  deriving DecidableEq, Repr

class Standing (τ : Type) where
  awaits : τ → Signal → Bool
  holds : τ → List SubscriptionId
  wakeTime? : τ → Option Nat

inductive Role (τ : Type)
  | dispatcher
  | own (standing : τ)

structure Task (τ : Type) where
  id : TaskId
  role : Role τ
  /-- The task ends with its next turn, whatever it was doing. -/
  cancelled : Bool := false

inductive Progress (τ : Type)
  /-- It takes another turn before all others. -/
  | again (standing : τ)
  /-- It waits for a signal. -/
  | wait (standing : τ)
  | finish

structure Schedule (α σ τ : Type) where
  bus : Bus α := {}
  shared : σ
  /-- Milliseconds since the start. -/
  clock : Nat := 0
  /-- The time up to which sleepers have been woken. -/
  alarm : Nat := 0
  /-- How many messages have been given an identifier. -/
  stamped : Nat := 0
  tasks : List (Task τ) := []
  /-- The tasks that are due a turn, in order. -/
  ready : List TaskId := []
  nextTask : TaskId := 0
  /-- The dispatcher, while the bus is connected. -/
  dispatcher : Option TaskId := none

/-- What the tasks do: one turn of a task from where it stands. -/
structure Program (α σ τ : Type) where
  turn : TaskId → τ → Schedule α σ τ → Schedule α σ τ × Progress τ

namespace Schedule

variable {α σ τ : Type}

/-! ## Tasks -/

def task? (s : Schedule α σ τ) (id : TaskId) : Option (Task τ) := s.tasks.find? (·.id == id)

def standing? (s : Schedule α σ τ) (id : TaskId) : Option τ :=
  match s.task? id with
  | some ⟨_, .own t, _⟩ => some t
  | _ => none

/-- Queues a task for a turn, unless it is queued already. -/
def rouse (s : Schedule α σ τ) (id : TaskId) : Schedule α σ τ :=
  if s.ready.contains id then s else { s with ready := s.ready ++ [id] }

theorem mem_ready_rouse (s : Schedule α σ τ) (id : TaskId) : id ∈ (s.rouse id).ready := by
  unfold rouse
  split
  · next h => simpa using h
  · simp

/-- A task that is queued is not queued twice. -/
theorem rouse_rouse (s : Schedule α σ τ) (id : TaskId) : (s.rouse id).rouse id = s.rouse id := by
  have h := mem_ready_rouse s id
  rw [rouse, if_pos (by simpa using h)]

def heeds [Standing τ] (signal : Signal) (t : Task τ) : Bool :=
  match t.role with
  | .dispatcher => false
  | .own standing => Standing.awaits standing signal

def signal [Standing τ] (s : Schedule α σ τ) (sig : Signal) : Schedule α σ τ :=
  ((s.tasks.filter (heeds sig)).map (·.id)).foldl rouse s

def spawnRole (s : Schedule α σ τ) (role : Role τ) : Schedule α σ τ :=
  { s with
    tasks := s.tasks ++ [{ id := s.nextTask, role }]
    ready := s.ready ++ [s.nextTask]
    nextTask := s.nextTask + 1 }

/-- Starts a task of the program. It takes its first turn when the queue has come to it. -/
def spawn (s : Schedule α σ τ) (standing : τ) : Schedule α σ τ := s.spawnRole (.own standing)

def place (s : Schedule α σ τ) (id : TaskId) (standing : τ) : Schedule α σ τ :=
  { s with
    tasks := s.tasks.map fun t => if t.id == id then { t with role := .own standing } else t }

def markCancelled (s : Schedule α σ τ) (id : TaskId) : Schedule α σ τ :=
  { s with
    tasks := s.tasks.map fun t => if t.id == id then { t with cancelled := true } else t }

/-- Cancels a task: its next turn, which it is now due, is its last. -/
def abort (s : Schedule α σ τ) (id : TaskId) : Schedule α σ τ :=
  if (s.task? id).isSome then (s.markCancelled id).rouse id else s

/-- Removes a task that has ended and tells those who wait for its end. -/
def remove [Standing τ] (s : Schedule α σ τ) (id : TaskId) : Schedule α σ τ :=
  { s with tasks := s.tasks.filter (·.id != id) }.signal (.ended id)

/-! ## The bus -/

/-- Gives the dispatcher a turn if there is something to hand out. -/
def nudge (s : Schedule α σ τ) : Schedule α σ τ :=
  match s.dispatcher with
  | some id => if s.bus.backend.queue.isEmpty then s else s.rouse id
  | none => s

def publish (s : Schedule α σ τ) (channel : String) (payload : α) : Schedule α σ τ :=
  { s with bus := s.bus.publish ⟨channel, payload⟩ }.nudge

def nextSubscription (s : Schedule α σ τ) : SubscriptionId := s.bus.nextId

def subscribe (s : Schedule α σ τ) (scope : Scope) : Schedule α σ τ :=
  { s with bus := s.bus.subscribe scope }.nudge

def listen (s : Schedule α σ τ) (channel : String) : Schedule α σ τ := s.subscribe (.channel channel)

def release (s : Schedule α σ τ) (id : SubscriptionId) : Schedule α σ τ :=
  { s with bus := s.bus.release id }

def releaseAll (s : Schedule α σ τ) (ids : List SubscriptionId) : Schedule α σ τ :=
  ids.foldl release s

def peek (s : Schedule α σ τ) (id : SubscriptionId) : Reading α := (s.bus.read id).1

/-- The schedule after the next event of a subscription has been read. -/
def taken (s : Schedule α σ τ) (id : SubscriptionId) : Schedule α σ τ :=
  { s with bus := (s.bus.read id).2 }

/-- Reads at most that many events of a subscription; the last part is what the next look would
find. -/
def pull : Nat → Schedule α σ τ → SubscriptionId → List (Event α) × Schedule α σ τ × Reading α
  | 0, s, id => ([], s, s.peek id)
  | n + 1, s, id =>
    match s.peek id with
    | .event e =>
      let (es, s, rest) := pull n (s.taken id) id
      (e :: es, s, rest)
    | .closed => ([], s.taken id, .closed)
    | .waiting => ([], s, .waiting)

def inboxSize (s : Schedule α σ τ) (id : SubscriptionId) : Nat :=
  ((s.bus.subscription? id).map (·.inbox.length)).getD 0

/-- Reads everything that has arrived, and says what is left to expect. -/
def drain (s : Schedule α σ τ) (id : SubscriptionId) : List (Event α) × Schedule α σ τ × Reading α :=
  pull (s.inboxSize id + 1) s id

def isIdle (s : Schedule α σ τ) : Bool := s.bus.isIdle

/-- Connects the bus and starts its dispatcher. -/
def connect (s : Schedule α σ τ) (runtime : Bool := true) : Except BusError (Schedule α σ τ) :=
  match s.bus.connect runtime with
  | .error e => .error e
  | .ok bus => .ok { s.spawnRole .dispatcher with bus, dispatcher := some s.nextTask }

/-- Takes the dispatcher off the bus and cancels it. -/
def detach (s : Schedule α σ τ) : Schedule α σ τ :=
  let t := { s with bus := s.bus.detach, dispatcher := none }
  match s.dispatcher with
  | some id => t.abort id
  | none => t

def closeAll [Standing τ] (s : Schedule α σ τ) : Schedule α σ τ :=
  s.bus.table.all.foldl (fun s id => s.signal (.mail id)) { s with bus := s.bus.closeAll }

/-! ## Turns -/

/-- A turn of the dispatcher: it hands out the oldest event and goes on while there are more. -/
def dispatchTurn [Standing τ] (s : Schedule α σ τ) (id : TaskId) : Schedule α σ τ :=
  match s.bus.backend.queue with
  | [] => s
  | event :: _ =>
    let told := (s.bus.recipients event.channel).foldl (fun s i => s.signal (.mail i))
      { s with bus := s.bus.dispatch }
    let told := if told.isIdle then told.signal .idle else told
    -- it keeps its turn; with nothing left to hand out the next one comes to nothing
    { told with ready := id :: told.ready }

/-- The last turn of a cancelled task: it gives back what it holds. -/
def endTurn [Standing τ] (s : Schedule α σ τ) (t : Task τ) : Schedule α σ τ :=
  match t.role with
  | .dispatcher => s.remove t.id
  | .own standing => (s.releaseAll (Standing.holds standing)).remove t.id

/-- Enters how a task goes on. -/
def settleTurn [Standing τ] (id : TaskId) :
    Schedule α σ τ × Progress τ → Schedule α σ τ
  | (s, .again standing) => { s.place id standing with ready := id :: s.ready }
  | (s, .wait standing) => s.place id standing
  | (s, .finish) => s.remove id

def step [Standing τ] (p : Program α σ τ) (s : Schedule α σ τ) : Schedule α σ τ :=
  match s.ready with
  | [] => s
  | id :: rest =>
    let s := { s with ready := rest }
    match s.task? id with
    | none => s
    | some t =>
      -- a cancelled task does nothing more, whatever it was due for
      if t.cancelled then s.endTurn t
      else match t.role with
        | .dispatcher => s.dispatchTurn id
        | .own standing => settleTurn id (p.turn id standing s)

def settle [Standing τ] (p : Program α σ τ) : Nat → Schedule α σ τ → Schedule α σ τ
  | 0, s => s
  | fuel + 1, s => if s.ready.isEmpty then s else settle p fuel (s.step p)

theorem settle_of_rest [Standing τ] (p : Program α σ τ) (fuel : Nat) {s : Schedule α σ τ}
    (h : s.ready = []) : s.settle p fuel = s := by
  cases fuel with
  | zero => rfl
  | succ fuel => simp [settle, h]

/-! ## From outside -/

def tick (s : Schedule α σ τ) : Schedule α σ τ := { s with clock := s.clock + 1 }

/-- Wakes the sleepers whose time has come. -/
def ring [Standing τ] (s : Schedule α σ τ) : Schedule α σ τ :=
  { s with alarm := s.clock }.signal (.clock s.clock)

/-- Lets time pass, one millisecond after the other. A task that was ready before has its turn before
the sleepers. -/
def advance [Standing τ] (p : Program α σ τ) (fuel : Nat) : Nat → Schedule α σ τ → Schedule α σ τ
  | 0, s => s
  | ms + 1, s => advance p fuel ms (((s.tick.settle p fuel).ring).settle p fuel)

theorem advance_add [Standing τ] (p : Program α σ τ) (fuel m n : Nat) (s : Schedule α σ τ) :
    s.advance p fuel (m + n) = (s.advance p fuel m).advance p fuel n := by
  induction m generalizing s with
  | zero => rw [Nat.zero_add, advance]
  | succ m ih => rw [Nat.succ_add, advance, advance, ih]

/-- Moves the clock to `time`, if that is ahead, and wakes the sleepers. -/
def moveClock [Standing τ] (s : Schedule α σ τ) (time : Nat) : Schedule α σ τ :=
  { s with clock := max s.clock time }.ring

def nextWake? [Standing τ] (s : Schedule α σ τ) : Option Nat :=
  (s.tasks.filterMap fun t => match t.role with
    | .own standing => Standing.wakeTime? standing
    | .dispatcher => none).min?

/-- Disconnects the bus from outside: every subscription is closed once the dispatcher has ended, and
at once if there is none. -/
def disconnect [Standing τ] (p : Program α σ τ) (fuel : Nat) (s : Schedule α σ τ) :
    Schedule α σ τ :=
  let s := if s.dispatcher.isSome then s.detach.settle p fuel else s
  s.closeAll.settle p fuel

/-- Waits from outside until all queued events have been handed out, and disconnects then. Without a
dispatcher that never comes; then the second part is false. -/
def stop [Standing τ] (p : Program α σ τ) (fuel : Nat) (s : Schedule α σ τ) :
    Schedule α σ τ × Bool :=
  if s.isIdle then (s.disconnect p fuel, true)
  else
    let s := s.settle p fuel
    if s.isIdle then (s.disconnect p fuel, true) else (s, false)

end Schedule
end Parley
