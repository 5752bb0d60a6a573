import Parley.Message.Basic
import Parley.Schedule.Basic
import Parley.Words.Cursor

/-!
# The terminal

A front end that reads lines and prints text. `Terminal` is where it stands: its listeners, the
request that is open, the lines not yet read, and what has been printed.
-/

set_option autoImplicit false

namespace Parley

inductive Print
  | message (m : Message)
  | prompt (plain : Bool)
  | lineEnd
  | noCompletions
  /-- The line that the only completion gives. -/
  | completed (line : String)
  | menu (displays : List String)

inductive Watch
  /-- Messages, requests, lines, and the keyboard. -/
  | all
  /-- Completions for a line, which are waited for until `deadline`; `request` stays open. -/
  | completions (request : Message) (line : String) (reply : SubscriptionId) (deadline : Nat)
  /-- It has ended; a text is what was wrong with completions. -/
  | ended (fault : Option String)

structure Terminal where
  output : SubscriptionId
  requests : SubscriptionId
  exits : SubscriptionId
  /-- The answer to requests after the end of input. -/
  exitWord : String
  lines : List String := []
  inputEnded : Bool := false
  pending : Option Message := none
  /-- The engine is answering the line that was sent last. -/
  responding : Bool := false
  /-- The user has pressed the key that interrupts. It stays pressed until the terminal finds nothing
  else to do, and is forgotten when completions have been waited for. (A terminal that listens for it
  anew after each thing that comes can miss it also where both come at once.) -/
  keyPressed : Bool := false
  watch : Watch := .all
  printed : List Print := []

namespace Terminal

def holds (t : Terminal) : List SubscriptionId :=
  match t.watch with
  | .all => [t.output, t.requests, t.exits]
  | .completions _ _ reply _ => [reply, t.output, t.requests, t.exits]
  | .ended _ => []

def awaits (t : Terminal) : Signal → Bool
  | .mail id =>
    match t.watch with
    | .all => id == t.output || id == t.exits || (id == t.requests && t.pending.isNone)
    | .completions _ _ reply _ => id == reply
    | .ended _ => false
  | .clock now =>
    match t.watch with
    | .completions _ _ _ deadline => deadline ≤ now
    | _ => false
  | .interruptKey =>
    match t.watch with
    | .all => true
    | _ => false
  | .line =>
    match t.watch with
    | .all => t.pending.isSome
    | _ => false
  | _ => false

def wakeTime? (t : Terminal) : Option Nat :=
  match t.watch with
  | .completions _ _ _ deadline => some deadline
  | _ => none

def isEnded (t : Terminal) : Bool :=
  match t.watch with
  | .ended _ => true
  | _ => false

end Terminal
end Parley
