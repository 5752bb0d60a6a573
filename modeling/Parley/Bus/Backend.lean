/-!
# The backend of a bus

The backend knows which channels have a listener, holds the events of the others back, and keeps one
queue of events to hand out, in the order in which they were published. An event is in exactly one
of the two places: `missed` while nobody listens on its channel, `queue` from then on. The lemmas at
the end say what a subscription and a publication do to the two.
-/

set_option autoImplicit false

namespace Parley

structure Event (α : Type) where
  channel : String
  payload : α
  deriving Repr

inductive BusError
  | notSubscribed (channel : String)
  | alreadyConnected
  | noRuntime
  | dispatcherPanicked (reason : String)
  deriving DecidableEq, Repr

def BusError.message : BusError → String
  | notSubscribed channel => "Channel is not subscribed: " ++ channel
  | alreadyConnected => "Bus is already connected"
  | noRuntime => "No tokio runtime available to run the dispatcher"
  | dispatcherPanicked reason => "Dispatcher task failed: " ++ reason

structure Backend (α : Type) where
  /-- The channels with a listener, each once. -/
  live : List String := []
  universal : Bool := false
  /-- The events held back, in the order in which they were published. -/
  missed : List (Event α) := []
  /-- The events to hand out, in the order in which they were published or replayed. -/
  queue : List (Event α) := []
  /-- Queued events whose handing out has not been acknowledged. -/
  pending : Nat := 0

namespace Backend

variable {α : Type}

def isSubscribed (b : Backend α) (channel : String) : Bool := b.live.contains channel

def bufferedCount (b : Backend α) (channel : String) : Nat :=
  b.missed.countP (·.channel == channel)

def enqueue (b : Backend α) (events : List (Event α)) : Backend α :=
  { b with queue := b.queue ++ events, pending := b.pending + events.length }

/-- Marks the channel as live and queues what it missed, oldest first. -/
def subscribe (b : Backend α) (channel : String) : Backend α :=
  { b with
    live := if b.isSubscribed channel then b.live else channel :: b.live
    -- what was missed comes behind what is queued already, also if it is older
    missed := b.missed.filter (·.channel != channel) }.enqueue
      (b.missed.filter (·.channel == channel))

def unsubscribe (b : Backend α) (channel : String) : Except BusError (Backend α) :=
  if b.isSubscribed channel then .ok { b with live := b.live.filter (· != channel) }
  else .error (.notSubscribed channel)

/-- Has all channels heard and queues what any of them missed, in the order of publication. -/
def universalSubscribe (b : Backend α) : Backend α :=
  { b with universal := true, missed := [] }.enqueue b.missed

def universalUnsubscribe (b : Backend α) : Except BusError (Backend α) :=
  if b.universal then .ok { b with universal := false } else .error (.notSubscribed "<universal>")

/-- Queues an event if somebody listens, and holds it back otherwise. -/
def publish (b : Backend α) (event : Event α) : Backend α :=
  if b.universal || b.isSubscribed event.channel then b.enqueue [event]
  else { b with missed := b.missed ++ [event] }

def next? (b : Backend α) : Option (Event α × Backend α) :=
  match b.queue with
  | [] => none
  | event :: rest => some (event, { b with queue := rest })

/-- Acknowledges that one taken event has been handed out. -/
def taskDone (b : Backend α) : Backend α := { b with pending := b.pending - 1 }

def isIdle (b : Backend α) : Bool := b.pending == 0

/-! ## What the operations do to queue and held events -/

theorem publish_of_heard {b : Backend α} {e : Event α}
    (h : b.universal || b.isSubscribed e.channel) : b.publish e = b.enqueue [e] := if_pos h

theorem publish_of_unheard {b : Backend α} {e : Event α}
    (h : (b.universal || b.isSubscribed e.channel) = false) :
    b.publish e = { b with missed := b.missed ++ [e] } := if_neg (by simp [h])

theorem queue_subscribe (b : Backend α) (channel : String) :
    (b.subscribe channel).queue = b.queue ++ b.missed.filter (·.channel == channel) := rfl

theorem missed_subscribe (b : Backend α) (channel : String) :
    (b.subscribe channel).missed = b.missed.filter (·.channel != channel) := rfl

/-- A channel that somebody hears holds nothing back. -/
theorem bufferedCount_subscribe (b : Backend α) (channel : String) :
    (b.subscribe channel).bufferedCount channel = 0 := by
  rw [bufferedCount, missed_subscribe, List.countP_eq_zero]
  intro e he
  have := (List.mem_filter.1 he).2
  simpa using this

/-- A subscription to one channel leaves alone what the others hold back. -/
theorem bufferedCount_subscribe_of_ne (b : Backend α) {c channel : String} (h : c ≠ channel) :
    (b.subscribe channel).bufferedCount c = b.bufferedCount c := by
  rw [bufferedCount, bufferedCount, missed_subscribe, List.countP_filter]
  refine List.countP_congr fun e _ => ?_
  constructor
  · intro he
    exact (Bool.and_eq_true_iff.1 he).1
  · intro he
    have hc : e.channel = c := by simpa using he
    simp [hc, h]

theorem isSubscribed_subscribe (b : Backend α) (channel : String) :
    (b.subscribe channel).isSubscribed channel = true := by
  by_cases h : channel ∈ b.live <;> simp [subscribe, enqueue, isSubscribed, h]

end Backend
end Parley
