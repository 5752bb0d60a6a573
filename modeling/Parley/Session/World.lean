import Parley.Session.Stage
import Parley.Terminal.Basic

/-!
# The world of a session

All tasks that share one bus of messages: those of a session, those that wait for single messages,
and the terminal. They share the settings, the commands, the engine and what it remembers.
-/

set_option autoImplicit false

namespace Parley

/-- What the tasks of a session share. -/
structure Context where
  settings : Settings := {}
  registry : Registry := {}
  engine : Engine := Engine.echo
  memory : Memory := {}

inductive Activity
  | errand (work : Working Message)
  | errandDone (result : Except Error Message)
  /-- It races work against an interrupt; `none` before the start. -/
  | raceUnstarted (job : Job Value)
  | race (race : Race Value)
  | raceDone (result : Except Error (Except Error Value))
  | responder (requests : SubscriptionId)
  | session (stage : Stage)
  | terminal (t : Terminal)

namespace Activity

def holds : Activity → List SubscriptionId
  | errand work => work.holds
  | race r => r.holds
  | responder requests => [requests]
  | session stage => stage.holds
  | terminal t => t.holds
  | _ => []

def wakeTime? : Activity → Option Nat
  | errand work => work.wakeTime?
  | race r => r.work.wakeTime?
  | session stage => stage.wakeTime?
  | terminal t => t.wakeTime?
  | _ => none

def awaits : Activity → Signal → Bool
  | terminal t, s => t.awaits s
  | a, .mail id => a.holds.contains id
  | a, .clock now => a.wakeTime?.any (· ≤ now)
  | session (.flushing _), .idle => true
  | session stage, .ended task => stage.awaitedTask? == some task
  | _, _ => false

instance : Standing Activity where
  awaits := awaits
  holds := holds
  wakeTime? := wakeTime?

end Activity

/-- A bus of messages and the tasks around it. -/
abbrev World := Schedule Message Context Activity

/-- The identifier of message number `n` of a world. -/
def MessageId.ofSerial (n : Nat) : MessageId := ⟨BitVec.ofNat 128 n⟩

namespace Schedule

variable {σ τ : Type}

def stamp (s : Schedule Message σ τ) (o : Outgoing) : Message :=
  o.stamp (MessageId.ofSerial s.stamped) (Timestamp.ofMillis s.clock)

def send (s : Schedule Message σ τ) (o : Outgoing) : Schedule Message σ τ :=
  { s with stamped := s.stamped + 1 }.publish o.channel (s.stamp o)

end Schedule
end Parley
