import Parley.Session.Input

/-!
# What the terminal does

In every turn the terminal takes one thing that has come, in this order: a message to print, the end
of the session, a request for a line if none is open, a line if one is open, and the key that
interrupts. A line that ends in a tab asks for completions.
-/

set_option autoImplicit false

namespace Parley.Terminal

/-- How long completions are waited for, in milliseconds. -/
def completionPatience : Nat := 2000

def isPlain (request : Message) : Bool :=
  ((request.extra.get? "plain").bind Value.asBool?).getD false

/-- Whether answering the request with the line hands a prompt to the engine. -/
def startsResponse (request : Message) (line : String) : Bool :=
  !isPlain request &&
    match Text.trimStartChars line.toList with
    | [] => false
    | c :: _ => c != sigil

/-- The line before a tab at its end. -/
def beforeTab? (line : String) : Option String :=
  let cs := line.toList
  if cs.getLast? = some '\t' then some (String.ofList cs.dropLast) else none

def print (t : Terminal) (p : Print) : Terminal := { t with printed := t.printed ++ [p] }

def answer (request : Message) (line : String) : Outgoing :=
  { data := .text line, source := .client : Outgoing }.replyTo request

def completionRequest (line : String) : Outgoing :=
  { data := .text line, channel := Channel.completionRequest, source := .client }

/-- The terminal has ended and gives up its listeners. -/
def finish (t : Terminal) (fault : Option String) (w : World) : World × Progress Activity :=
  (w.releaseAll t.holds, .wait (.terminal { t with watch := .ended fault }))

def again (t : Terminal) (w : World) : World × Progress Activity := (w, .again (.terminal t))

def wait (t : Terminal) (w : World) : World × Progress Activity := (w, .wait (.terminal t))

def reply (t : Terminal) (request : Message) (line : String) (w : World) :
    World × Progress Activity :=
  again { t with pending := none } (w.send (answer request line))

/-- Asks for completions of a line. The request stays open meanwhile. -/
def complete (t : Terminal) (request : Message) (line : String) (w : World) :
    World × Progress Activity :=
  let asked := w.stamp (completionRequest line)
  let sent := w.send (completionRequest line)
  wait { t with pending := none
                watch := .completions request line sent.nextSubscription
                  (sent.clock + completionPatience) }
    (sent.listen asked.replyChannel)

def useLine (t : Terminal) (request : Message) (line : String) (w : World) :
    World × Progress Activity :=
  match beforeTab? line with
  | some part =>
    -- there is nothing to complete in an answer: the tab is only left out
    if isPlain request then reply t request part w else complete t request part w
  | none => reply { t with responding := startsResponse request line } request line w

/-- Handles the key that interrupts: it answers an open request with the exit word, and otherwise
interrupts a running response. -/
def pressKey (t : Terminal) (w : World) : World × Progress Activity :=
  let t := { t with keyPressed := false }
  match t.pending with
  | some request => reply (t.print .lineEnd) request t.exitWord w
  | none =>
    if t.responding then again { t with responding := false } (w.send (.interrupt .client))
    else again t w

/-- Waits, unless the key has been pressed. -/
def rest (t : Terminal) (w : World) : World × Progress Activity :=
  if t.keyPressed then pressKey t w else wait t w

/-- Reads a line for the open request; after the end of input the exit word stands for it. -/
def readLine (t : Terminal) (request : Message) (w : World) : World × Progress Activity :=
  match t.lines with
  | line :: lines => useLine { t with lines } request line w
  | [] => if t.inputEnded then reply (t.print .lineEnd) request t.exitWord w else rest t w

def takeRequest (t : Terminal) (w : World) : World × Progress Activity :=
  match w.peek t.requests with
  | .waiting => rest t w
  | .closed => finish t none (w.taken t.requests)
  | .event e =>
    again ({ t with pending := some e.payload, responding := false }.print
      (.prompt (isPlain e.payload))) (w.taken t.requests)

def watchTurn (t : Terminal) (w : World) : World × Progress Activity :=
  -- what has been said is printed before anything else is looked at
  match w.peek t.output with
  | .event e => again (t.print (.message e.payload)) (w.taken t.output)
  | .closed => finish t none (w.taken t.output)
  | .waiting =>
    match w.peek t.exits with
    | .event _ | .closed => finish t none (w.taken t.exits)
    | .waiting =>
      match t.pending with
      | some request => readLine t request w
      | none => takeRequest t w

def menu (line : String) : List Words.Completion → Print
  | [] => .noCompletions
  | [only] => .completed (Words.applyCompletion line only)
  | many => .menu (many.map (·.display))

/-- Goes back to the open request, with a new prompt. A key that has been pressed meanwhile was not
listened for. -/
def reopen (t : Terminal) (request : Message) (w : World) : World × Progress Activity :=
  again ({ t with watch := .all, pending := some request, keyPressed := false }.print
    (.prompt false)) w

def completionTurn (t : Terminal) (request : Message) (line : String) (id : SubscriptionId)
    (deadline : Nat) (w : World) : World × Progress Activity :=
  match w.peek id with
  | .event e =>
    match Words.Completion.listOfValue? e.payload.data with
    | some cs => reopen (t.print (menu line cs)) request ((w.taken id).release id)
    | none => finish t (some "not a list of completions") (w.taken id)
  | .closed => reopen t request ((w.taken id).release id)
  | .waiting => if deadline ≤ w.alarm then reopen t request (w.release id) else wait t w

def turn (t : Terminal) (w : World) : World × Progress Activity :=
  match t.watch with
  | .all => watchTurn t w
  | .completions request line id deadline => completionTurn t request line id deadline w
  | .ended _ => wait t w

end Parley.Terminal
