import Parley.Session.World

/-!
# Working on jobs

`Job.run` does a job up to its first pause, `Working.poll` goes on from a pause if what it waits for
has come. `Race.poll` does so under an interrupt: work that is finished wins, else the first message
of the listener ends the race, and a listener that is closed leaves the work alone.
-/

set_option autoImplicit false

namespace Parley

variable {β : Type}

/-- What comes of work when it is looked at. -/
inductive Poll (α β : Type)
  | ready (result : α)
  | pending (rest : β)

def remember (prompt : String) (w : World) : World :=
  { w with shared := { w.shared with
      memory := { w.shared.memory with prompts := w.shared.memory.prompts ++ [prompt] } } }

/-- Does a job up to its first pause; `held` are the channels that it listens to. -/
def Job.run : Job β → List SubscriptionId → World → World × Poll (Except Error β) (Working β)
  | .finish r, held, w => (w.releaseAll held, .ready (.ok r))
  | .fail e, held, w => (w.releaseAll held, .ready (.error e))
  | .send o next, held, w => next.run held (w.send o)
  | .record prompt next, held, w => next.run held (remember prompt w)
  | .sleep ms next, held, w =>
    if ms = 0 then next.run held w else (w, .pending (.asleep held (w.clock + ms) next))
  | .receive channel next, held, w =>
    (w.listen channel, .pending (.receiving held w.nextSubscription next))
  | .listen channel next, held, w => next.run (held ++ [w.nextSubscription]) (w.listen channel)
  | .await number next, held, w =>
    match held[number]? with
    | none => (w, .pending (.stalled held))
    | some id =>
      match w.peek id with
      | .event e => (next e.payload).run held (w.taken id)
      | .closed => ((w.taken id).releaseAll held, .ready (.error .subscriptionClosed))
      | .waiting => (w, .pending (.awaiting held number next))
  | .stall, held, w => (w, .pending (.stalled held))

/-- Goes on with a job, if what it waits for has come. -/
def Working.poll : Working β → World → World × Poll (Except Error β) (Working β)
  | .fresh job, w => job.run [] w
  | .asleep held wake next, w =>
    if wake ≤ w.alarm then next.run held w else (w, .pending (.asleep held wake next))
  | .receiving held id next, w =>
    match w.peek id with
    | .event e => (next e.payload).run held ((w.taken id).release id)
    | .closed =>
      (((w.taken id).release id).releaseAll held, .ready (.error .subscriptionClosed))
    | .waiting => (w, .pending (.receiving held id next))
  | .awaiting held number next, w => (Job.await number next).run held w
  | .stalled held, w => (w, .pending (.stalled held))

namespace Race

def start (job : Job β) (w : World) : Race β × World :=
  ({ work := .fresh job, interrupts := some w.nextSubscription }, w.listen Channel.interrupt)

/-- The end of a race that the work wins. -/
def won (interrupts : Option SubscriptionId) (r : Except Error β) (w : World) :
    World × Poll (Except Error (Except Error β)) (Race β) :=
  (w.releaseAll interrupts.toList, .ready (.ok r))

def alone (work : Working β) (w : World) :
    World × Poll (Except Error (Except Error β)) (Race β) :=
  match work.poll w with
  | (w, .ready r) => (w, .ready (.ok r))
  | (w, .pending work) => (w, .pending { work, interrupts := none })

/-- Looks at the work first and at the listener then. -/
def poll (r : Race β) (w : World) : World × Poll (Except Error (Except Error β)) (Race β) :=
  match r.work.poll w with
  | (w, .ready result) => won r.interrupts result w
  | (w, .pending work) =>
    match r.interrupts with
    | none => (w, .pending { work, interrupts := none })
    | some id =>
      -- the work has been looked at: an interrupt that is there now ends it
      match w.peek id with
      | .waiting => (w, .pending { work, interrupts := some id })
      | .event _ =>
        (((w.taken id).releaseAll work.holds).release id, .ready (.error .interrupted))
      | .closed => alone work ((w.taken id).release id)

end Race
end Parley
