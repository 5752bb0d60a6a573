import Parley.Bus.Basic
import Parley.Message.Basic
import Parley.Session.Error

/-!
# Jobs

A job is work that a session may wait for and may give up: it sends messages, sleeps, waits for
messages, remembers prompts, and ends with a result or an error. It may listen to several channels
at once, until it ends. `Working` is a job that has been taken up, at the start or at one of the
places where it pauses, with the subscriptions that it holds there.
-/

set_option autoImplicit false

namespace Parley

inductive Job (β : Type)
  | finish (result : β)
  | fail (e : Error)
  | send (o : Outgoing) (next : Job β)
  /-- Has the engine remember a prompt. -/
  | record (prompt : String) (next : Job β)
  | sleep (ms : Nat) (next : Job β)
  /-- Waits for one message on a channel, with a subscription that lives only for this. It fails if
  that is closed. -/
  | receive (channel : String) (next : Message → Job β)
  /-- Listens to a channel from now on, until the job has ended. -/
  | listen (channel : String) (next : Job β)
  /-- Waits for the next message of one of the channels that it listens to, counted in the order of
  `listen`. It fails if that is closed, and waits for ever if there is no such channel. -/
  | await (number : Nat) (next : Message → Job β)
  | stall

/-- A job that has been taken up; `held` are the channels that it listens to. -/
inductive Working (β : Type)
  | fresh (job : Job β)
  | asleep (held : List SubscriptionId) (wake : Nat) (next : Job β)
  | receiving (held : List SubscriptionId) (subscription : SubscriptionId)
    (next : Message → Job β)
  | awaiting (held : List SubscriptionId) (number : Nat) (next : Message → Job β)
  | stalled (held : List SubscriptionId)

namespace Working

variable {β : Type}

def holds : Working β → List SubscriptionId
  | fresh _ => []
  | receiving held id _ => id :: held
  | asleep held _ _ | awaiting held _ _ | stalled held => held

def wakeTime? : Working β → Option Nat
  | asleep _ wake _ => some wake
  | _ => none

end Working

namespace Job

def recv (channel : String) : Job Message := .receive channel .finish

/-- Waits for that many messages on a channel, one after the other, and collects their data. -/
def recvMany (channel : String) : Nat → List Value → Job Value
  | 0, got => .finish (.list got)
  | n + 1, got => .receive channel fun m => recvMany channel n (got ++ [m.data])

end Job
end Parley
