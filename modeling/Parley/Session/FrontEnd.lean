import Parley.Session.Program

/-!
# A front end played by hand

A party that listens to a session and answers its requests one by one. After every act the tasks
run until nothing more happens, and what has arrived since the last look can be read.
-/

set_option autoImplicit false

namespace Parley

structure FrontEnd where
  world : World
  output : SubscriptionId
  requests : SubscriptionId
  exits : Option SubscriptionId
  /-- The requests that have not been answered, oldest first. -/
  unanswered : List Message := []
  /-- The task that is played to. -/
  target : Option TaskId := none

structure Arrivals where
  output : List Message
  requests : List Message
  /-- How often the end of a session was announced, for one who listens to that. -/
  exits : Option Nat

namespace FrontEnd

/-- Listens to the conversation, to requests for lines, and, if `exits` says so, to the end. -/
def attach (context : Context) (exits : Bool) : FrontEnd :=
  let w : World := { shared := context }
  let output := w.nextSubscription
  let w := w.listen Channel.default
  let requests := w.nextSubscription
  let w := w.listen Channel.inputRequest
  if exits then
    { world := w.listen Channel.sessionExit, output, requests, exits := some w.nextSubscription }
  else { world := w, output, requests, exits := none }

def mapWorld (f : FrontEnd) (act : World → World) : FrontEnd := { f with world := act f.world }

def send (f : FrontEnd) (o : Outgoing) : FrontEnd := f.mapWorld (·.send o)

def settle (f : FrontEnd) : FrontEnd := f.mapWorld World.settle

def begin (f : FrontEnd) (target : Target) : FrontEnd :=
  { f with world := f.world.spawn (.session (.unstarted target)), target := some f.world.nextTask }

def look (f : FrontEnd) : Arrivals × FrontEnd :=
  let (output, w, _) := f.world.drain f.output
  let (requests, w, _) := w.drain f.requests
  let output := output.map (·.payload)
  let requests := requests.map (·.payload)
  match f.exits with
  | none =>
    (⟨output, requests, none⟩, { f with world := w, unanswered := f.unanswered ++ requests })
  | some id =>
    let (exits, w, _) := w.drain id
    (⟨output, requests, some exits.length⟩,
      { f with world := w, unanswered := f.unanswered ++ requests })

def answer? (f : FrontEnd) (data : Value) : Option FrontEnd :=
  match f.unanswered with
  | [] => none
  | request :: rest =>
    some ({ f with unanswered := rest }.send ({ data, source := .client : Outgoing }.replyTo request))

/-- Asks for completions of a line and waits for the reply, which may not come. -/
def complete (f : FrontEnd) (line : Value) : Option Value × FrontEnd :=
  let o : Outgoing := { data := line, channel := Channel.completionRequest, source := .client }
  let request := f.world.stamp o
  let sent := f.world.send o
  let id := sent.nextSubscription
  let w := World.settle (sent.listen request.replyChannel)
  let answer := match w.peek id with
    | .event e => some e.payload.data
    | _ => none
  (answer, { f with world := w.release id })

def set (f : FrontEnd) (setting : Setting) (value : String) : Except InvalidValue FrontEnd :=
  match f.world.shared.settings.set setting value with
  | .error e => .error e
  | .ok settings => .ok (f.mapWorld (Stage.withSettings settings))

def start (f : FrontEnd) : Except BusError FrontEnd :=
  match f.world.connect with
  | .error e => .error e
  | .ok w => .ok { f with world := w }

/-- Stops the stream; the second part is false if events are stuck in it. -/
def stop (f : FrontEnd) : FrontEnd × Bool :=
  let (w, stopped) := f.world.stop
  ({ f with world := w }, stopped)

def cancel (f : FrontEnd) : FrontEnd :=
  match f.target with
  | none => f
  | some task =>
    match f.world.standing? task with
    | some (.session (.done _)) => f
    | _ => (f.mapWorld (·.abort task)).settle

inductive Fate
  | running
  | ended (result : Except Error Yield)
  | cancelled

def fate (f : FrontEnd) : Fate :=
  match f.target with
  | none => .cancelled
  | some task =>
    match f.world.standing? task with
    | some (.session (.done r)) => .ended r
    | some _ => .running
    | none => .cancelled

end FrontEnd
end Parley
