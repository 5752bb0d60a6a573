import Parley.Terminal.Turn

/-!
# The program of a world

What each task of a world does in its turn.
-/

set_option autoImplicit false

namespace Parley

/-- Enters what came of waiting for one message. -/
def errandTurn : World × Poll (Except Error Message) (Working Message) → World × Progress Activity
  | (w, .ready r) => (w, .wait (.errandDone r))
  | (w, .pending work) => (w, .wait (.errand work))

def raceTurn : World × Poll (Except Error (Except Error Value)) (Race Value) →
    World × Progress Activity
  | (w, .ready r) => (w, .wait (.raceDone r))
  | (w, .pending r) => (w, .wait (.race r))

def sessionTurn : Led → World × Progress Activity
  | (w, stage) => (w, if stage.isBusy then .again (.session stage) else .wait (.session stage))

def Activity.turn (a : Activity) (w : World) : World × Progress Activity :=
  match a with
  | .errand work => errandTurn (work.poll w)
  | .raceUnstarted job =>
    let (r, w) := Race.start job w
    raceTurn (r.poll w)
  | .race r => raceTurn (r.poll w)
  | .responder requests => responderTurn requests w
  | .session stage => sessionTurn (stage.turn w)
  | .terminal t => t.turn w
  | a => (w, .wait a)

/-- The program of every world. -/
def program : Program Message Context Activity := ⟨fun _ a w => a.turn w⟩

namespace World

/-- More turns than a world takes that comes to rest. -/
def turnLimit : Nat := 1000000

def settle (w : World) : World := Schedule.settle program turnLimit w

def advance (w : World) (ms : Nat) : World := Schedule.advance program turnLimit ms w

def disconnect (w : World) : World := Schedule.disconnect program turnLimit w

/-- Stops the stream from outside; the second part is false if events are stuck in it. -/
def stop (w : World) : World × Bool := Schedule.stop program turnLimit w

end World
end Parley
