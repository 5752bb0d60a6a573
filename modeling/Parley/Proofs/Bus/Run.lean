import Parley.Bus.Basic

/-!
# Runs of a bus

What may happen to a bus is an `Act`: a call of one of its parties, or a step of its dispatcher. A
run is any list of acts, in any order; `disconnect` is two acts, between which others may come.
Three lists are read off a run: what was `published`, what the dispatcher has `handed` out, and the
`mail` of a subscription, which is everything that was ever put into its mailbox.
-/

set_option autoImplicit false

namespace Parley.Bus

variable {α : Type}

/-- What may happen to a bus. -/
inductive Act (α : Type)
  | publish (e : Event α)
  | subscribe (scope : Scope)
  | drop (id : SubscriptionId)
  | read (id : SubscriptionId)
  | connect (runtime : Bool)
  /-- The first half of a disconnect. -/
  | detach
  /-- The second half of a disconnect. -/
  | closeAll
  | dispatch

namespace Act

def event? : Act α → Option (Event α)
  | publish e => some e
  | _ => none

/-- The act drops the subscription. -/
def drops (id : SubscriptionId) : Act α → Bool
  | drop i => i == id
  | _ => false

theorem eq_drop {id : SubscriptionId} {a : Act α} (h : a.drops id = true) : a = drop id := by
  cases a with
  | drop i => rw [eq_of_beq h]
  | _ => cases h

end Act

/-- The bus after an act. A connect that is refused changes nothing. -/
def act (b : Bus α) : Act α → Bus α
  | .publish e => b.publish e
  | .subscribe scope => b.subscribe scope
  | .drop id => b.release id
  | .read id => (b.read id).2
  | .connect runtime =>
    match b.connect runtime with
    | .ok b => b
    | .error _ => b
  | .detach => b.detach
  | .closeAll => b.closeAll
  | .dispatch => b.dispatch

def run (b : Bus α) (acts : List (Act α)) : Bus α := acts.foldl act b

@[simp] theorem run_nil (b : Bus α) : b.run [] = b := rfl

@[simp] theorem run_cons (b : Bus α) (a : Act α) (acts : List (Act α)) :
    b.run (a :: acts) = (b.act a).run acts := rfl

theorem run_append (b : Bus α) (xs ys : List (Act α)) : b.run (xs ++ ys) = (b.run xs).run ys :=
  List.foldl_append

theorem run_disconnect (b : Bus α) : b.run [.detach, .closeAll] = b.disconnect := rfl

/-! ## What is read off a run -/

/-- The events that are published in a run, in this order. -/
def published (acts : List (Act α)) : List (Event α) := acts.filterMap (·.event?)

theorem published_append (xs ys : List (Act α)) :
    published (xs ++ ys) = published xs ++ published ys := List.filterMap_append

/-- The events that an act hands out. -/
def handsOut (b : Bus α) : Act α → List (Event α)
  | .dispatch => if b.connected then b.backend.queue.take 1 else []
  | _ => []

/-- The events that are handed out in a run from `b`, in this order. -/
def handed (b : Bus α) : List (Act α) → List (Event α)
  | [] => []
  | a :: acts => b.handsOut a ++ (b.act a).handed acts

theorem handed_append (b : Bus α) (xs ys : List (Act α)) :
    b.handed (xs ++ ys) = b.handed xs ++ (b.run xs).handed ys := by
  induction xs generalizing b with
  | nil => rfl
  | cons a xs ih => rw [List.cons_append, handed, handed, ih, List.append_assoc]; rfl

/-- What lies in the mailbox of a subscription. -/
def inbox (b : Bus α) (id : SubscriptionId) : List (Delivery α) :=
  ((b.subscription? id).map (·.inbox)).getD []

/-- What an act takes out of the mailbox of a subscription: a read takes the oldest delivery, if the
mark of the end has not been read yet, and dropping the subscription discards them all. -/
def takenBy (b : Bus α) (id : SubscriptionId) : Act α → List (Delivery α)
  | .read i =>
    if i = id ∧ (b.subscription? id).any (!·.closed) then (b.inbox id).take 1 else []
  | .drop i => if i = id then b.inbox id else []
  | _ => []

/-- What is taken out of the mailbox of a subscription in a run from `b`. -/
def taken (b : Bus α) (id : SubscriptionId) : List (Act α) → List (Delivery α)
  | [] => []
  | a :: acts => b.takenBy id a ++ (b.act a).taken id acts

theorem taken_append (b : Bus α) (id : SubscriptionId) (xs ys : List (Act α)) :
    b.taken id (xs ++ ys) = b.taken id xs ++ (b.run xs).taken id ys := by
  induction xs generalizing b with
  | nil => rfl
  | cons a xs ih => rw [List.cons_append, taken, taken, ih, List.append_assoc]; rfl

/-- The mail of a subscription in a run from `b`: what was taken out of its mailbox, and what lies
in it at the end. -/
def mail (b : Bus α) (id : SubscriptionId) (acts : List (Act α)) : List (Delivery α) :=
  b.taken id acts ++ (b.run acts).inbox id

theorem mail_append (b : Bus α) (id : SubscriptionId) (xs ys : List (Act α)) :
    b.mail id (xs ++ ys) = b.taken id xs ++ (b.run xs).mail id ys := by
  rw [mail, mail, taken_append, run_append, List.append_assoc]

end Parley.Bus

namespace Parley

variable {α : Type}

def Delivery.event? : Delivery α → Option (Event α)
  | event e => some e
  | closed => none

/-- The events among deliveries. -/
def Delivery.events (ds : List (Delivery α)) : List (Event α) := ds.filterMap (·.event?)

/-- The events of one channel. -/
def Event.on (c : String) (es : List (Event α)) : List (Event α) := es.filter (·.channel == c)

@[simp] theorem Delivery.events_append (xs ys : List (Delivery α)) :
    events (xs ++ ys) = events xs ++ events ys := List.filterMap_append

@[simp] theorem Event.on_append (c : String) (xs ys : List (Event α)) :
    on c (xs ++ ys) = on c xs ++ on c ys := List.filter_append xs ys

@[simp] theorem Event.on_nil (c : String) : on c ([] : List (Event α)) = [] := rfl

end Parley
