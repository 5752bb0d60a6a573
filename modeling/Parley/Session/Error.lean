import Parley.Bus.Backend

/-!
# Errors of a session

Three of them are ways to end rather than failures: a listener that was closed, the wish to leave
the session, and an interrupt.
-/

set_option autoImplicit false

namespace Parley

inductive Error
  | bus (e : BusError)
  | subscriptionClosed
  | sessionExit
  | interrupted
  | engine (reason : String)
  deriving DecidableEq, Repr

namespace Error

def message : Error → String
  | bus e => e.message
  | subscriptionClosed => "Subscription closed"
  | sessionExit => "Session exit requested"
  | interrupted => "Interrupted"
  | engine reason => "Engine error: " ++ reason

/-- The error ends the session rather than being reported in it. -/
def endsSession : Error → Bool
  | sessionExit | subscriptionClosed => true
  | _ => false

end Error
end Parley
