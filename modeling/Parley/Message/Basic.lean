import Parley.Message.Id
import Parley.Message.Timestamp
import Parley.Value.Basic

/-!
# Messages

What the parties of a session send each other. A message has an identifier of its own, and the reply
to it goes to the channel `replyChannel`, which no other message shares. `Outgoing` is a message
before it is stamped with identifier and time.
-/

set_option autoImplicit false

namespace Parley

inductive Source
  | server
  | client
  deriving DecidableEq, Repr

namespace Source

def name : Source → String
  | server => "server"
  | client => "client"

def ofName? : String → Option Source
  | "server" => some server
  | "client" => some client
  | _ => none

theorem ofName?_name (s : Source) : ofName? s.name = some s := by cases s <;> rfl

end Source

/-- How a message is meant, for the reader's eye. -/
inductive Style
  | info
  | success
  | warning
  | error
  deriving DecidableEq, Repr

namespace Style

def name : Style → String
  | info => "info"
  | success => "success"
  | warning => "warning"
  | error => "error"

def ofName? : String → Option Style
  | "info" => some info
  | "success" => some success
  | "warning" => some warning
  | "error" => some error
  | _ => none

theorem ofName?_name (s : Style) : ofName? s.name = some s := by cases s <;> rfl

end Style

/-! ## Channels that every session uses -/

namespace Channel

/-- The conversation, from the engine to the reader. -/
def default : String := "default"
/-- A line of input is wanted. -/
def inputRequest : String := "input_request"
/-- The running response is to be abandoned. -/
def interrupt : String := "interrupt"
/-- Completions of a half-typed command line are wanted. -/
def completionRequest : String := "completion_request"
/-- The session has ended. -/
def sessionExit : String := "session_exit"

def reply (base : String) (id : MessageId) : String := base ++ ":" ++ id.render

end Channel

structure Message where
  id : MessageId
  channel : String
  source : Source
  data : Value
  extra : Fields
  createdAt : Timestamp
  deriving Repr

namespace Message

/-- The channel on which the reply to the message is expected. -/
def replyChannel (m : Message) : String := Channel.reply m.channel m.id

def text? (m : Message) : Option String := m.data.asText?

def style? (m : Message) : Option Style :=
  (m.extra.get? "style").bind fun v => v.asText?.bind Style.ofName?

end Message

/-- A message before it is stamped with an identifier and the time. -/
structure Outgoing where
  data : Value := .null
  channel : String := Channel.default
  source : Source := .server
  extra : Fields := []
  deriving Repr

namespace Outgoing

def withExtra (o : Outgoing) (key : String) (value : Value) : Outgoing :=
  { o with extra := Fields.insert key value o.extra }

def withStyle (o : Outgoing) (style : Style) : Outgoing := o.withExtra "style" (.text style.name)

/-- Sets what is printed after the text in place of a line end. -/
def withEnd (o : Outgoing) (terminator : String) : Outgoing := o.withExtra "end" (.text terminator)

def styled (text : String) (style : Style) : Outgoing :=
  { data := .text text : Outgoing }.withStyle style

/-- The answer to `request`, on its reply channel. -/
def replyTo (o : Outgoing) (request : Message) : Outgoing :=
  { o with channel := request.replyChannel }

/-- The request for a line of input; `plain` says that no commands are taken. -/
def lineRequest (plain : Bool) : Outgoing :=
  { channel := Channel.inputRequest, extra := [("plain", .bool plain)] }

def interrupt (source : Source) : Outgoing := { channel := Channel.interrupt, source := source }

def stamp (o : Outgoing) (id : MessageId) (now : Timestamp) : Message :=
  { id, channel := o.channel, source := o.source, data := o.data, extra := o.extra,
    createdAt := now }

end Outgoing
end Parley
