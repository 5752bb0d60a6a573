import Parley.Session.Program
import Parley.Terminal.Print

/-!
# A session at a terminal

A terminal is attached to a stream, the session is started, and both run on lines of input until the
terminal has ended or nothing more can happen.
-/

set_option autoImplicit false

namespace Parley

structure Play where
  world : World
  terminal : TaskId
  session : TaskId

namespace Play

/-- The terminal listens to the channels of a session that has not started. -/
def attach (w : World) (exitWord : String) (lines : List String) (inputEnded : Bool) :
    Terminal × World :=
  let output := w.nextSubscription
  let w := w.listen Channel.default
  let requests := w.nextSubscription
  let w := w.listen Channel.inputRequest
  let exits := w.nextSubscription
  ({ output, requests, exits, exitWord, lines, inputEnded }, w.listen Channel.sessionExit)

/-- The answer that stands for the end of input: the first exit word. -/
def exitWord (settings : Settings) : String := settings.exitWords.head?.getD "q"

/-- Attaches a terminal, sends the messages of `before`, and starts session and terminal. -/
def start (context : Context) (before : List Outgoing) (lines : List String) (inputEnded : Bool) :
    Play :=
  let (terminal, w) := attach { shared := context } (exitWord context.settings) lines inputEnded
  let w := before.foldl Schedule.send w
  let session := w.nextTask
  let w := w.spawn (.session (.unstarted .session))
  { world := w.spawn (.terminal terminal), terminal := w.nextTask, session }

def terminal? (p : Play) : Option Terminal :=
  match p.world.standing? p.terminal with
  | some (.terminal t) => some t
  | _ => none

def isEnded (p : Play) : Bool := p.terminal?.all (·.isEnded)

/-- What the session has come to, if it has ended. -/
def sessionResult? (p : Play) : Option (Except Error Yield) :=
  match p.world.standing? p.session with
  | some (.session (.done r)) => some r
  | _ => none

def fault? (p : Play) : Option String :=
  match p.terminal? with
  | some { watch := .ended fault, .. } => fault
  | _ => none

def printed (p : Play) : List Print := (p.terminal?.map (·.printed)).getD []

/-- Changes the terminal from outside and rouses it. -/
def touch (p : Play) (change : Terminal → Terminal) (signal : Signal) : Play :=
  match p.terminal? with
  | some t => { p with world := (p.world.place p.terminal (.terminal (change t))).signal signal }
  | none => p

def pressKey (p : Play) : Play := p.touch (fun t => { t with keyPressed := true }) .interruptKey

def enter (p : Play) (lines : List String) : Play :=
  p.touch (fun t => { t with lines := t.lines ++ lines }) .line

def endInput (p : Play) : Play := p.touch (fun t => { t with inputEnded := true }) .line

def settle (p : Play) : Play := { p with world := p.world.settle }

/-- The engine is at work on the line that was sent last, and will say no more by itself. -/
def isStuck (p : Play) : Bool :=
  p.terminal?.any fun t => t.responding && t.pending.isNone && !t.isEnded

/-- Runs until nothing more can happen; sleepers are woken in the order of time. An `impatient` user
presses the interrupt key when a response hangs. -/
def run (impatient : Bool) : Nat → Play → Play
  | 0, p => p
  | fuel + 1, p =>
    let p := p.settle
    match p.world.nextWake? with
    | some time => run impatient fuel { p with world := p.world.moveClock time }
    | none => if impatient && p.isStuck then run impatient fuel p.pressKey else p

/-- More pauses than a session makes. -/
def pauseLimit : Nat := 1000000

/-- A whole session on the given lines. -/
def whole (context : Context) (before : List Outgoing) (lines : List String) (impatient : Bool) :
    Play :=
  run impatient pauseLimit (start context before lines true)

end Play
end Parley
