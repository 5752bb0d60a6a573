import Parley.Command.Registry
import Parley.Schedule.Basic
import Parley.Session.Engine

/-!
# Where the tasks of a session stand

A session waits in few places: for a line, for a response or an interrupt, and at its end for the
other tasks. Between these it goes on at once: it asks for a line, takes a step of a command, or
hands a prompt to the engine. `Stage` lists both kinds of places, together with what the next thing
will be used for. A stage holds all that the rest of the run depends on.
-/

set_option autoImplicit false

namespace Parley

/-- Work and the listener whose first message cuts it short. -/
structure Race (β : Type) where
  work : Working β
  /-- The listener, until it is closed. -/
  interrupts : Option SubscriptionId

namespace Race

variable {β : Type}

def holds (r : Race β) : List SubscriptionId := r.work.holds ++ r.interrupts.toList

end Race

/-- Who takes the prompts that are entered. -/
inductive PromptTaker
  /-- A session, which hands them to its engine; `responder` is its task that completes lines. -/
  | session (responder : TaskId)
  /-- Nobody: one prompt is what the task is for. -/
  | alone
  deriving DecidableEq, Repr

/-- Where it goes on when a command has run. -/
inductive CommandCaller
  /-- With the next line, until one is a prompt. -/
  | inputLoop (taker : PromptTaker)
  /-- Nowhere: running the command is what the task is for. -/
  | alone
  deriving DecidableEq, Repr

inductive LineUse
  /-- It is a command line or a prompt. -/
  | input (taker : PromptTaker)
  /-- It answers a question of a command. -/
  | answer (default : Bool) (next : Bool → Script) (caller : CommandCaller)
  /-- A command asked for it. -/
  | collected (next : String → Script) (caller : CommandCaller)
  /-- Answering a question is what the task is for. -/
  | answerAlone (default : Bool)
  /-- Getting the line is what the task is for. -/
  | lineAlone

inductive Target
  | session
  | line (plain : Bool)
  | question (default : Bool)
  | prompt
  | command (name : String) (values : List String)
  | response (prompt : String)
  deriving DecidableEq, Repr

inductive Yield
  | unit
  | line (text : String)
  | flag (b : Bool)
  deriving DecidableEq, Repr

inductive Stage
  | unstarted (target : Target)
  | asking (plain : Bool) (use : LineUse)
  | awaitingLine (reply : SubscriptionId) (use : LineUse)
  | commanding (rest : Script) (caller : CommandCaller)
  | prompting (prompt : String) (responder : TaskId)
  /-- Waits for a response that cannot be interrupted. -/
  | responding (work : Working Unit)
  | racing (race : Race Unit) (responder : TaskId)
  /-- Waits for the end of the task that completes lines. -/
  | dismissing (responder : TaskId) (outcome : Except Error Unit)
  | flushing (outcome : Except Error Unit)
  /-- Waits for the end of the dispatcher. -/
  | disconnecting (dispatcher : TaskId) (outcome : Except Error Unit)
  | done (outcome : Except Error Yield)

namespace Stage

/-- The task goes on from here at once. -/
def isBusy : Stage → Bool
  | asking _ _ | commanding _ _ | prompting _ _ => true
  | _ => false

def holds : Stage → List SubscriptionId
  | awaitingLine reply _ => [reply]
  | responding work => work.holds
  | racing race _ => race.holds
  | _ => []

def wakeTime? : Stage → Option Nat
  | responding work => work.wakeTime?
  | racing race _ => race.work.wakeTime?
  | _ => none

/-- The end of a task that the stage waits for. -/
def awaitedTask? : Stage → Option TaskId
  | dismissing task _ => some task
  | disconnecting task _ => some task
  | _ => none

end Stage
end Parley
