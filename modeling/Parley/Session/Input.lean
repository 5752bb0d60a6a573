import Parley.Session.Work

/-!
# A task of a session

How a task goes on from each stage. A line is asked for on one channel and awaited on the channel of
the reply; what comes back is used as the stage says: as an answer, as a command line, as a prompt.
A turn does one thing: it asks for a line, takes one step of a command, hands one prompt to the
engine, or uses what has come.
-/

set_option autoImplicit false

namespace Parley

/-- Where a task is led: the world, and where it stands in it. -/
abbrev Led := World × Stage

namespace Stage

/-- Asks for a line and waits for the reply. -/
def askLine (plain : Bool) (use : LineUse) (w : World) : Led :=
  let request := w.stamp (.lineRequest plain)
  let asked := w.send (.lineRequest plain)
  -- a reply that comes before the listener is held back for it
  (asked.listen request.replyChannel, .awaitingLine asked.nextSubscription use)

def finish (result : Except Error Yield) (w : World) : Led := (w, .done result)

/-! ## The end of a session -/

def closed (outcome : Except Error Unit) (w : World) : Led :=
  finish (outcome.map fun _ => .unit) w.closeAll

/-- Takes the dispatcher off the bus and waits for its end. -/
def disconnect (outcome : Except Error Unit) (w : World) : Led :=
  match w.dispatcher with
  | some task => (w.detach, .disconnecting task outcome)
  | none => closed outcome w

def flush (outcome : Except Error Unit) (w : World) : Led :=
  if w.isIdle then disconnect outcome w else (w, .flushing outcome)

def announce (outcome : Except Error Unit) (w : World) : Led :=
  flush outcome (w.send { channel := Channel.sessionExit })

/-- Ends the input loop: the task that completes lines is no longer needed. -/
def endSession (responder : TaskId) (outcome : Except Error Unit) (w : World) : Led :=
  if (w.task? responder).isSome then (w.abort responder, .dismissing responder outcome)
  else announce outcome w

/-! ## Prompts -/

def nextLine (responder : TaskId) (w : World) : Led :=
  (w, .asking false (.input (.session responder)))

def report (text : String) (style : Style) (responder : TaskId) (w : World) : Led :=
  nextLine responder (w.send (.styled text style))

/-- Goes on after a race: with the next line, unless the response wished to end the session. -/
def raced (responder : TaskId) (result : Except Error (Except Error Unit)) (w : World) : Led :=
  match result with
  | .ok (.ok ()) => nextLine responder w
  | .ok (.error e) =>
    if e.endsSession then endSession responder (.ok ()) w
    else report e.message .error responder w
  -- an interrupt is all that a race fails with
  | .error .interrupted => report "Interrupted" .warning responder w
  | .error e => endSession responder (.error e) w

def race (responder : TaskId) :
    World × Poll (Except Error (Except Error Unit)) (Race Unit) → Led
  | (w, .ready result) => raced responder result w
  | (w, .pending r) => (w, .racing r responder)

/-- Hands a prompt to the engine, under an interrupt. -/
def engage (responder : TaskId) (prompt : String) (w : World) : Led :=
  let (r, w) := Race.start (w.shared.engine.respond w.shared.settings prompt) w
  race responder (r.poll w)

/-- Uses a prompt, or the error in its place. A blank prompt is passed over. -/
def takePrompt (taker : PromptTaker) (prompt : Except Error String) (w : World) : Led :=
  match taker, prompt with
  | .alone, p => finish (p.map .line) w
  | .session responder, .ok p =>
    if (Text.trim p).isEmpty then nextLine responder w else (w, .prompting p responder)
  | .session responder, .error e =>
    endSession responder (if e.endsSession then .ok () else .error e) w

/-! ## Commands -/

/-- Goes on when a command has run. In the input loop an error is reported, unless it ends the
session. -/
def commandDone (caller : CommandCaller) (result : Except Error Unit) (w : World) : Led :=
  match caller, result with
  | .alone, r => finish (r.map fun _ => .unit) w
  | .inputLoop taker, .ok () => (w, .asking false (.input taker))
  | .inputLoop taker, .error e =>
    if e.endsSession then takePrompt taker (.error e) w
    else (w.send (.styled e.message .error), .asking false (.input taker))

def withSettings (settings : Settings) (w : World) : World :=
  { w with shared := { w.shared with settings } }

def forget (w : World) : World :=
  { w with shared := { w.shared with memory := w.shared.engine.clear w.shared.memory } }

/-- One step of the body of a command. -/
def command (caller : CommandCaller) (rest : Script) (w : World) : Led :=
  match rest with
  | .finish => commandDone caller (.ok ()) w
  | .fail e => commandDone caller (.error e) w
  | .send o next => (w.send o, .commanding next caller)
  | .look next => (w, .commanding (next w.shared.settings) caller)
  | .change setting value next =>
    match w.shared.settings.set setting value with
    | .ok settings => (withSettings settings w, .commanding (next none) caller)
    | .error e => (w, .commanding (next (some e)) caller)
  | .forget next => (forget w, .commanding next caller)
  | .ask default next => (w, .asking true (.answer default next caller))
  | .collect plain next => (w, .asking plain (.collected next caller))

/-! ## Lines -/

/-- What a line says to a question: yes, no, or neither. Nothing stands for the default. -/
def yesNo? (default : Bool) (line : String) : Option Bool :=
  match Text.lowerASCII (Text.trim line) with
  | "" => some default
  | "y" | "yes" => some true
  | "n" | "no" => some false
  | _ => none

/-- The command line after its sigil, if a line is one: leading blanks do not count. -/
def commandLine? (line : String) : Option String := Registry.afterSigil? (Text.trimStart line)

def askAgain (use : LineUse) (w : World) : Led :=
  (w.send (.styled "Please answer y or n" .warning), .asking true use)

/-- Uses an awaited line, or the error in its place. -/
def useLine (use : LineUse) (line : Except Error String) (w : World) : Led :=
  match use, line with
  | .input taker, .error e => takePrompt taker (.error e) w
  | .input taker, .ok line =>
    match commandLine? line with
    | some rest => (w, .commanding (w.shared.registry.lineScript rest) (.inputLoop taker))
    | none => takePrompt taker (.ok line) w
  | .answer _ _ caller, .error e => commandDone caller (.error e) w
  | .answer default next caller, .ok line =>
    match yesNo? default line with
    | some b => (w, .commanding (next b) caller)
    | none => askAgain (.answer default next caller) w
  | .collected _ caller, .error e => commandDone caller (.error e) w
  | .collected next caller, .ok line => (w, .commanding (next line) caller)
  | .answerAlone _, .error e => finish (.error e) w
  | .answerAlone default, .ok line =>
    match yesNo? default line with
    | some b => finish (.ok (.flag b)) w
    | none => askAgain (.answerAlone default) w
  | .lineAlone, line => finish (line.map .line) w

/-- The line that a reply carries: nothing, if its data is no text. An exit word is the wish to
leave. -/
def lineOf (settings : Settings) (reply : Message) : Except Error String :=
  let line := reply.text?.getD ""
  if settings.isExitWord line then .error .sessionExit else .ok line

/-! ## Turns -/

/-- Connects the bus and starts the task that completes lines. -/
def startSession (w : World) : Led :=
  match Schedule.connect w with
  | .error e => finish (.error (.bus e)) w
  | .ok w =>
    -- the listener is there before the first line is asked for, so that no request is missed
    let listening := w.listen Channel.completionRequest
    nextLine listening.nextTask (listening.spawn (.responder w.nextSubscription))

def answered : World × Poll (Except Error Unit) (Working Unit) → Led
  | (w, .ready r) => finish (r.map fun _ => .unit) w
  | (w, .pending work) => (w, .responding work)

def start (target : Target) (w : World) : Led :=
  match target with
  | .session => startSession w
  | .line plain => (w, .asking plain .lineAlone)
  | .question default => (w, .asking true (.answerAlone default))
  | .prompt => (w, .asking false (.input .alone))
  | .command name values =>
    let r := w.shared.registry
    (w, .commanding ((r.resolve name).script r.directory values) .alone)
  | .response prompt =>
    answered ((w.shared.engine.respond w.shared.settings prompt).run [] w)

/-- One turn of a task from where it stands. -/
def turn (stage : Stage) (w : World) : Led :=
  match stage with
  | unstarted target => start target w
  | asking plain use => askLine plain use w
  | commanding rest caller => command caller rest w
  | prompting prompt responder => engage responder prompt w
  | awaitingLine reply use =>
    -- the listener is given up before the line is used
    match w.peek reply with
    | .waiting => (w, stage)
    | .closed => useLine use (.error .subscriptionClosed) ((w.taken reply).release reply)
    | .event e =>
      useLine use (lineOf w.shared.settings e.payload) ((w.taken reply).release reply)
  | responding work => answered (work.poll w)
  | racing r responder => race responder (r.poll w)
  | dismissing responder outcome =>
    if (w.task? responder).isSome then (w, stage) else announce outcome w
  | flushing outcome => flush outcome w
  | disconnecting task outcome =>
    if (w.task? task).isSome then (w, stage) else closed outcome w
  | done _ => (w, stage)

end Stage

/-! ## Completing lines -/

namespace Words.Completion

def toValue (c : Completion) : Value :=
  .object [("display", .text c.display), ("position", .int c.position), ("text", .text c.text)]

/-- Text, display and position, from an object or from the list of the three. -/
def parts? : Value → Option (Value × Value × Value)
  | .object fields => do
    return (← Fields.get? "text" fields, ← Fields.get? "display" fields,
      ← Fields.get? "position" fields)
  | .list [text, display, position] => some (text, display, position)
  | _ => none

def ofValue? (v : Value) : Option Completion :=
  match parts? v with
  | some (.text text, .text display, .int position) =>
    -- a signed integer of 64 bits; the integers of a value are never less
    if position < Nat.pow 2 63 then some { text, display, position } else none
  | _ => none

def listOfValue? : Value → Option (List Completion)
  | .list items => items.mapM ofValue?
  | _ => none

end Words.Completion

/-- The completions of the line that a request carries, or none if that is no line. -/
def completionsFor (registry : Registry) (request : Message) : List Words.Completion :=
  match registry.completions (request.text?.getD "") with
  | .ok cs => cs
  | .error _ => []

def completionReply (registry : Registry) (request : Message) : Outgoing :=
  { data := .list ((completionsFor registry request).map (·.toValue)) : Outgoing }.replyTo request

def responderTurn (requests : SubscriptionId) (w : World) : World × Progress Activity :=
  match w.peek requests with
  | .waiting => (w, .wait (.responder requests))
  | .closed => ((w.taken requests).release requests, .finish)
  | .event e =>
    ((w.taken requests).send (completionReply w.shared.registry e.payload),
      .again (.responder requests))

end Parley
