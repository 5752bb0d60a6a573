import Parley.Schedule.Basic

/-!
# A task that waits for one event

The simplest program around a bus: a task takes a subscription over, waits for its next event, and
keeps both until they are collected.
-/

set_option autoImplicit false

namespace Parley

/-- Where a task stands that waits for one event of a subscription. -/
inductive Waiter (α : Type)
  | waiting (subscription : SubscriptionId)
  | done (subscription : SubscriptionId) (reading : Reading α)

namespace Waiter

variable {α : Type}

def subscription : Waiter α → SubscriptionId
  | waiting id | done id _ => id

instance : Standing (Waiter α) where
  awaits
    | waiting id, .mail i => i == id
    | _, _ => false
  holds w := [w.subscription]
  wakeTime? _ := none

/-- One look into the mailbox. -/
def turn (w : Waiter α) (s : Schedule α Unit (Waiter α)) :
    Schedule α Unit (Waiter α) × Progress (Waiter α) :=
  match w with
  | done id r => (s, .wait (done id r))
  | waiting id =>
    match s.peek id with
    | .waiting => (s, .wait (waiting id))
    | r => (s.taken id, .wait (done id r))

def program : Program α Unit (Waiter α) := ⟨fun _ w s => w.turn s⟩

end Waiter
end Parley
