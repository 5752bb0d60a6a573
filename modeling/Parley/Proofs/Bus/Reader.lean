import Parley.Proofs.Bus.Bystander
import Parley.Schedule.Basic

/-!
# Reading a subscription to its end

The holder of a subscription reads it through a call that waits for one event, or through a sequence
of events that ends when the subscription is closed, and may let go of either at any time. What
happens around a subscription is a list of `Move`s: acts of the others, and what its holder does.
Both ways of reading come down to `Bus.read`; only a sequence that has ended does not ask again.

`Has.move` says what one move does to the subscription (`Does`). What has been answered and what can
still be read (`Subscription.unread`) is together what was put into the mailbox before the mark of
the end; `Account.move` keeps this account over one move, `Account.after` over all of them. So no
event is lost or read twice where one way of reading takes over from another (`read_until_closed`).
What a task pulls from a subscription is what a sequence finds (`Schedule.fst_pull_eq_looks`).
-/

set_option autoImplicit false

namespace Parley

variable {α : Type}

namespace Delivery

variable {ds : List (Delivery α)}

theorem ahead_of_not_mem (h : .closed ∉ ds) : ahead ds = events ds := by
  have happend := ahead_append_of_not_mem h []
  rwa [List.append_nil, ahead, List.append_nil] at happend

theorem ahead_eq_nil (h : events ds = []) : ahead ds = [] := by
  cases ds with
  | nil => rfl
  | cons d ds =>
    cases d with
    | event e => cases h
    | closed => rfl

end Delivery

/-! ## What can still be read -/

namespace Subscription

variable {s : Subscription α}

/-- The events that can still be read: what lies in the mailbox ahead of the mark of the end. -/
def unread (s : Subscription α) : List (Event α) :=
  if s.closed then [] else Delivery.ahead s.inbox

/-- The mark of the end has arrived, whether or not it has been read. -/
def Marked (s : Subscription α) : Prop := s.closed = true ∨ .closed ∈ s.inbox

theorem unread_of_closed (h : s.closed = true) : s.unread = [] := if_pos h

theorem marked_put (ds : List (Delivery α)) :
    Marked { s with inbox := s.inbox ++ ds } ↔ s.Marked ∨ .closed ∈ ds := by
  simp only [Marked, List.mem_append, or_assoc]

/-- Behind the mark of the end nothing more can be read. -/
theorem unread_put_of_marked (h : s.Marked) (ds : List (Delivery α)) :
    unread { s with inbox := s.inbox ++ ds } = s.unread := by
  unfold unread
  split
  · rfl
  · next hopen => exact Delivery.ahead_append_of_mem (h.resolve_left hopen) ds

theorem unread_put (h : ¬s.Marked) (ds : List (Delivery α)) :
    unread { s with inbox := s.inbox ++ ds } = s.unread ++ Delivery.ahead ds := by
  obtain ⟨hopen, hmark⟩ := not_or.1 h
  rw [unread, unread, if_neg hopen, if_neg hopen, Delivery.ahead_append_of_not_mem hmark,
    Delivery.ahead_of_not_mem hmark]

/-- A read finds an event, or the mark of the end, or nothing. -/
theorem read_cases (s : Subscription α) :
    (∃ e, s.read.1 = .event e ∧ s.unread = e :: s.read.2.unread ∧
        (s.read.2.Marked ↔ s.Marked) ∧ s.closed = false) ∨
      (s.read.1 = .closed ∧ s.unread = [] ∧ s.Marked ∧ s.read.2.closed = true) ∨
      (s.read = (.waiting, s) ∧ s.unread = [] ∧ ¬s.Marked) := by
  cases hclosed : s.closed
  · unfold Subscription.read unread Marked
    rw [hclosed]
    cases hinbox : s.inbox with
    | nil => exact .inr (.inr ⟨rfl, rfl, by simp⟩)
    | cons d rest =>
      cases d with
      | event e => exact .inl ⟨e, rfl, rfl, by simp, rfl⟩
      | closed => exact .inr (.inl ⟨rfl, rfl, .inr List.mem_cons_self, rfl⟩)
  · rw [read_of_closed hclosed]
    exact .inr (.inl ⟨rfl, unread_of_closed hclosed, .inl hclosed, hclosed⟩)

theorem closed_of_read (h : s.read.1 = .closed) : s.read.2.closed = true := by
  rcases s.read_cases with ⟨e, he, -⟩ | ⟨-, -, -, hclosed⟩ | ⟨hwait, -⟩
  · rw [he] at h
    cases h
  · exact hclosed
  · rw [hwait] at h
    cases h

theorem marked_read (s : Subscription α) : s.read.2.Marked ↔ s.Marked := by
  rcases s.read_cases with ⟨-, -, -, hmarked, -⟩ | ⟨-, -, hmarked, hclosed⟩ | ⟨hwait, -⟩
  · exact hmarked
  · exact iff_of_true (.inl hclosed) hmarked
  · rw [hwait]

end Subscription

/-- The events among what has been read. -/
def Reading.events (rs : List (Reading α)) : List (Event α) :=
  rs.filterMap fun
    | .event e => some e
    | _ => none

theorem Reading.events_append (xs ys : List (Reading α)) :
    events (xs ++ ys) = events xs ++ events ys := List.filterMap_append

theorem Reading.events_eq_nil {rs : List (Reading α)} (h : ∀ r ∈ rs, r = .closed) :
    events rs = [] := List.filterMap_eq_nil_iff.2 fun r hr => h r hr ▸ rfl

namespace Bus

variable {b : Bus α} {id : SubscriptionId}

/-! ## What is handed out until the bus is closed -/

/-- The act puts the mark of the end into the mailboxes, which is what a disconnect ends with. -/
def Act.closes : Act α → Bool
  | closeAll => true
  | _ => false

theorem Act.closes_iff {a : Act α} : a.closes = true ↔ a = .closeAll := by
  cases a <;> simp [closes]

/-- The events that are handed out before the bus is closed for the first time. -/
def heard (b : Bus α) (acts : List (Act α)) : List (Event α) :=
  b.handed (acts.takeWhile (!·.closes))

theorem heard_cons (b : Bus α) (a : Act α) (acts : List (Act α)) :
    b.heard (a :: acts) = if a.closes then [] else b.handsOut a ++ (b.act a).heard acts := by
  rw [heard, List.takeWhile_cons]
  cases a.closes <;> rfl

theorem heard_append_of_closes {acts : List (Act α)} (h : acts.any (·.closes) = true)
    (more : List (Act α)) : b.heard (acts ++ more) = b.heard acts := by
  induction acts generalizing b with
  | nil => cases h
  | cons a acts ih =>
    rw [List.cons_append, heard_cons, heard_cons]
    cases ha : a.closes
    · rw [List.any_cons, ha, Bool.false_or] at h
      rw [ih h]
    · rfl

theorem heard_concat {acts : List (Act α)} (h : acts.any (·.closes) = false) (a : Act α) :
    b.heard (acts ++ [a]) = b.heard acts ++ (b.run acts).handsOut a := by
  induction acts generalizing b with
  | nil =>
    rw [List.nil_append, heard_cons]
    cases a with
    | closeAll => rfl
    | _ => exact List.append_nil _
  | cons a' acts ih =>
    rw [List.any_cons, Bool.or_eq_false_iff] at h
    rw [List.cons_append, heard_cons, heard_cons, h.1, ih h.2, run_cons]
    exact (List.append_assoc _ _ _).symm

theorem heard_concat_read (acts : List (Act α)) (i : SubscriptionId) :
    b.heard (acts ++ [.read i]) = b.heard acts := by
  cases h : acts.any (·.closes)
  · exact (heard_concat h _).trans (List.append_nil _)
  · exact heard_append_of_closes h _

/-! ## Moves -/

/-- What the holder of a subscription has open on it: a call that waits for the next event, or a
sequence of events, which may have ended. -/
inductive Handle
  | none
  | call
  | sequence (ended : Bool)

/-- Looking at it asks the subscription. -/
def Handle.asks : Handle → Bool
  | .call | .sequence false => true
  | _ => false

/-- What is open after an answer: a call is over unless it still waits, and a sequence ends with the
subscription. -/
def Handle.answered : Handle → Reading α → Handle
  | .call, .waiting => .call
  | .call, _ => .none
  | .sequence _, .closed => .sequence true
  | h, _ => h

/-- What happens around a subscription: an act of anybody who does not hold it, or something that
its holder does. A new call or sequence takes the place of what was open. Once the holder drops the
subscription it reads nothing more, so that is no move. -/
inductive Move (α : Type) (id : SubscriptionId)
  | other (a : Act α) (ha : a.Avoids id)
  | call
  | iterate
  /-- The holder waits for as long as nothing else happens. -/
  | look
  /-- The holder abandons what is open. -/
  | letGo

/-- A bus, and what the holder of the subscription has open. -/
structure Reader (α : Type) (id : SubscriptionId) where
  bus : Bus α
  handle : Handle := .none

namespace Reader

/-- What the holder learns from a move. -/
def answer? (x : Reader α id) : Move α id → Option (Reading α)
  | .look => match x.handle with
    | .none => none
    | .sequence true => some .closed
    | _ => some (x.bus.read id).1
  | _ => none

/-- What a move does to the bus. -/
def act? (x : Reader α id) : Move α id → Option (Act α)
  | .other a _ => some a
  | .look => if x.handle.asks then some (.read id) else none
  | _ => none

/-- What is open after a move. -/
def opened (x : Reader α id) : Move α id → Handle
  | .other .. => x.handle
  | .call => .call
  | .iterate => .sequence false
  | .look => match x.answer? .look with
    | some r => x.handle.answered r
    | none => x.handle
  | .letGo => .none

def move (x : Reader α id) (m : Move α id) : Reader α id :=
  { bus := x.bus.run (x.act? m).toList, handle := x.opened m }

def after (x : Reader α id) (ms : List (Move α id)) : Reader α id := ms.foldl move x

/-- What the bus has been through in the moves. -/
def acts (x : Reader α id) : List (Move α id) → List (Act α)
  | [] => []
  | m :: ms => (x.act? m).toList ++ (x.move m).acts ms

/-- What the holder has learned in the moves. -/
def answers (x : Reader α id) : List (Move α id) → List (Reading α)
  | [] => []
  | m :: ms => (x.answer? m).toList ++ (x.move m).answers ms

theorem drops_of_mem_acts {x : Reader α id} {ms : List (Move α id)} {a : Act α}
    (ha : a ∈ x.acts ms) : a.drops id = false := by
  induction ms generalizing x with
  | nil => cases ha
  | cons m ms ih =>
    refine (List.mem_append.1 ha).elim (fun hone => ?_) ih
    rw [Option.mem_toList] at hone
    cases m with
    | other a' havoids =>
      cases hone
      exact havoids.drops
    | look =>
      rw [act?] at hone
      split at hone <;> cases hone
      rfl
    | _ => cases hone

/-! ## One move -/

/-- The subscription is there, and closed if a sequence on it has ended. -/
structure Has (x : Reader α id) (s : Subscription α) : Prop where
  agrees : x.bus.Agrees
  mailbox : x.bus.subscription? id = some s
  ended : x.handle = .sequence true → s.closed = true

/-- What a move does to the subscription. -/
inductive Does (x : Reader α id) (m : Move α id) (s : Subscription α) : Subscription α → Prop
  | put {a : Act α} {ds : List (Delivery α)} (hact : x.act? m = some a)
      (hanswer : x.answer? m = none)
      (hevents : Delivery.events ds = (x.bus.handsOut a).filter (s.scope.covers ·.channel))
      (hmark : .closed ∈ ds ↔ a = .closeAll) : Does x m s { s with inbox := s.inbox ++ ds }
  | idle (hact : x.act? m = none) (hanswer : x.answer? m = none) : Does x m s s
  | ended (hact : x.act? m = none) (hanswer : x.answer? m = some .closed)
      (hclosed : s.closed = true) : Does x m s s
  | read (hact : x.act? m = some (.read id)) (hanswer : x.answer? m = some s.read.1) :
      Does x m s s.read.2

variable {x : Reader α id} {s : Subscription α}

theorem Has.read (h : x.Has s) : (x.bus.read id).1 = s.read.1 := by
  rw [Bus.read, h.mailbox]

/-- A look at a sequence that has not ended asks the subscription. -/
theorem Has.look (h : x.Has s) (hseq : x.handle = .sequence false) :
    x.answer? .look = some s.read.1 ∧ (x.move .look).Has s.read.2 ∧
      (s.read.1 ≠ .closed → (x.move .look).handle = .sequence false) := by
  have hagrees := h.agrees.act (.read id)
  have hmailbox := subscription?_read_self h.mailbox
  have hread := h.read
  obtain ⟨b, handle⟩ := x
  obtain rfl : handle = .sequence false := hseq
  have hhandle : (Reader.move (⟨b, .sequence false⟩ : Reader α id) .look).handle =
      (Handle.sequence false).answered s.read.1 := congrArg (Handle.sequence false).answered hread
  refine ⟨congrArg some hread, ⟨hagrees, hmailbox, fun hended => ?_⟩, fun hne => ?_⟩
  · rw [hhandle] at hended
    cases hr : s.read.1 <;> rw [hr] at hended <;> cases hended
    exact Subscription.closed_of_read hr
  · rw [hhandle]
    cases hr : s.read.1 with
    | closed => exact absurd hr hne
    | _ => rfl

theorem Has.move (h : x.Has s) (m : Move α id) : ∃ s', (x.move m).Has s' ∧ x.Does m s s' := by
  cases m with
  | other a ha =>
    obtain ⟨ds, hds, hevents, hmark⟩ := h.agrees.delivered h.mailbox ha
    exact ⟨_, ⟨h.agrees.act a, hds, h.ended⟩, .put rfl rfl hevents hmark⟩
  | call => exact ⟨s, ⟨h.agrees, h.mailbox, nofun⟩, .idle rfl rfl⟩
  | iterate => exact ⟨s, ⟨h.agrees, h.mailbox, nofun⟩, .idle rfl rfl⟩
  | letGo => exact ⟨s, ⟨h.agrees, h.mailbox, nofun⟩, .idle rfl rfl⟩
  | look =>
    have hagrees := h.agrees.act (.read id)
    have hmailbox := subscription?_read_self h.mailbox
    have hread := h.read
    obtain ⟨b, handle⟩ := x
    rcases handle with _ | _ | ended
    · exact ⟨s, h, .idle rfl rfl⟩
    · refine ⟨s.read.2, ⟨hagrees, hmailbox, fun hended => ?_⟩, .read rfl (congrArg some hread)⟩
      replace hended : Handle.call.answered (b.read id).1 = .sequence true := hended
      cases hr : (b.read id).1 <;> rw [hr] at hended <;> cases hended
    · cases ended
      · obtain ⟨hanswer, hhas, -⟩ := h.look rfl
        exact ⟨s.read.2, hhas, .read rfl hanswer⟩
      · exact ⟨s, h, .ended rfl rfl (h.ended rfl)⟩

/-! ## All moves -/

/-- Since the subscription was made the bus has been through `acts` and the holder has been given
`answers`; these and what can still be read are what was put into the mailbox. -/
structure Account (b : Bus α) (scope : Scope) (x : Reader α id) (s : Subscription α)
    (acts : List (Act α)) (answers : List (Reading α)) : Prop extends x.Has s where
  ran : x.bus = b.run acts
  scope_eq : s.scope = scope
  events : Reading.events answers ++ s.unread = (b.heard acts).filter (scope.covers ·.channel)
  marked : s.Marked ↔ acts.any (·.closes) = true
  closed : .closed ∈ answers → s.closed = true

namespace Account

variable {scope : Scope} {acts : List (Act α)} {answers : List (Reading α)}

theorem put (h : Account b scope x s acts answers) {a : Act α} {ds : List (Delivery α)}
    (hevents : Delivery.events ds = (x.bus.handsOut a).filter (s.scope.covers ·.channel))
    (hmark : .closed ∈ ds ↔ a = .closeAll) :
    Reading.events answers ++ Subscription.unread { s with inbox := s.inbox ++ ds } =
      (b.heard (acts ++ [a])).filter (scope.covers ·.channel) := by
  by_cases hmarked : s.Marked
  · rw [Subscription.unread_put_of_marked hmarked, heard_append_of_closes (h.marked.1 hmarked)]
    exact h.events
  · have hopen : acts.any (·.closes) = false := Bool.not_eq_true _ ▸ mt h.marked.2 hmarked
    have hahead : Delivery.ahead ds = Delivery.events ds := by
      by_cases hclosed : .closed ∈ ds
      · obtain rfl := hmark.1 hclosed
        rw [hevents]
        exact Delivery.ahead_eq_nil hevents
      · exact Delivery.ahead_of_not_mem hclosed
    rw [Subscription.unread_put hmarked, ← List.append_assoc, h.events, heard_concat hopen,
      List.filter_append, ← h.ran, hahead, hevents, h.scope_eq]

theorem read (h : Account b scope x s acts answers) :
    Reading.events (answers ++ [s.read.1]) ++ s.read.2.unread =
      (b.heard (acts ++ [.read id])).filter (scope.covers ·.channel) := by
  rw [heard_concat_read, ← h.events, Reading.events_append, List.append_assoc]
  congr 1
  rcases s.read_cases with ⟨e, hread, hunread, -⟩ | ⟨hread, hunread, -, hclosed⟩ | ⟨hread, -⟩
  · rw [hread, hunread]
    rfl
  · rw [hread, hunread, Subscription.unread_of_closed hclosed]
    rfl
  · rw [hread]
    rfl

theorem move (h : Account b scope x s acts answers) (m : Move α id) :
    ∃ s', Account b scope (x.move m) s' (acts ++ (x.act? m).toList)
      (answers ++ (x.answer? m).toList) := by
  obtain ⟨s', hhas, hdoes⟩ := h.toHas.move m
  have hran : (x.move m).bus = b.run (acts ++ (x.act? m).toList) := by
    rw [run_append, ← h.ran]
    rfl
  refine ⟨s', ?_⟩
  cases hdoes with
  | put hact hanswer hevents hmark =>
    rw [hact] at hran ⊢
    rw [hanswer, Option.toList_none, List.append_nil]
    exact { hhas with
      ran := hran
      scope_eq := h.scope_eq
      events := h.put hevents hmark
      marked := by simp [Subscription.marked_put, h.marked, hmark, Act.closes_iff]
      closed := h.closed }
  | idle hact hanswer =>
    rw [hact, Option.toList_none, List.append_nil] at hran ⊢
    rw [hanswer, Option.toList_none, List.append_nil]
    exact { hhas, h with ran := hran }
  | ended hact hanswer hclosed =>
    rw [hact, Option.toList_none, List.append_nil] at hran ⊢
    rw [hanswer]
    exact { hhas, h with
      ran := hran
      events := by
        rw [Reading.events_append, List.append_assoc]
        exact h.events
      closed := fun _ => hclosed }
  | read hact hanswer =>
    rw [hact] at hran ⊢
    rw [hanswer]
    refine { hhas with
      ran := hran
      scope_eq := (scope_read s).trans h.scope_eq
      events := h.read
      marked := ?_
      closed := fun hmem => ?_ }
    · rw [s.marked_read, h.marked, List.any_append]
      simp [Act.closes]
    · rcases List.mem_append.1 hmem with hold | hnew
      · have hclosed := h.closed hold
        rw [Subscription.read_of_closed hclosed]
        exact hclosed
      · exact Subscription.closed_of_read (List.mem_singleton.1 hnew).symm

theorem after (h : Account b scope x s acts answers) (ms : List (Move α id)) :
    ∃ s', Account b scope (x.after ms) s' (acts ++ x.acts ms) (answers ++ x.answers ms) := by
  induction ms generalizing x s acts answers with
  | nil =>
    refine ⟨s, ?_⟩
    rw [Reader.acts, Reader.answers, List.append_nil, List.append_nil]
    exact h
  | cons m ms ih =>
    obtain ⟨s', hmove⟩ := h.move m
    rw [Reader.acts, Reader.answers, ← List.append_assoc, ← List.append_assoc]
    exact ih hmove

end Account

/-- A subscription that is closed stays so, and nothing else is answered. -/
theorem Does.of_closed {m : Move α id} {s' : Subscription α} (h : x.Does m s s')
    (hclosed : s.closed = true) : s'.closed = true ∧ ∀ r, x.answer? m = some r → r = .closed := by
  cases h with
  | put hact hanswer | idle hact hanswer =>
    refine ⟨hclosed, fun r hr => ?_⟩
    cases hanswer.symm.trans hr
  | ended hact hanswer => exact ⟨hclosed, fun r hr => Option.some.inj (hr.symm.trans hanswer)⟩
  | read hact hanswer =>
    rw [Subscription.read_of_closed hclosed] at hanswer ⊢
    exact ⟨hclosed, fun r hr => Option.some.inj (hr.symm.trans hanswer)⟩

theorem Has.answers_of_closed (h : x.Has s) (hclosed : s.closed = true) (ms : List (Move α id)) :
    ∀ r ∈ x.answers ms, r = .closed := by
  induction ms generalizing x s with
  | nil => exact nofun
  | cons m ms ih =>
    obtain ⟨s', hhas, hdoes⟩ := h.move m
    obtain ⟨hclosed', hanswer⟩ := hdoes.of_closed hclosed
    intro r hr
    rw [Reader.answers, List.mem_append, Option.mem_toList] at hr
    exact hr.elim (hanswer r) (ih hhas hclosed' r)

/-- Looks at a sequence find what can still be read, and then whether the end has come. -/
theorem Has.answers_looks (h : x.Has s) (hseq : x.handle = .sequence false) :
    ∃ last, x.answers (List.replicate (s.unread.length + 1) .look) = s.unread.map .event ++ [last] ∧
      (s.Marked → last = .closed) ∧ (¬s.Marked → last = .waiting) := by
  induction hunread : s.unread generalizing x s with
  | nil =>
    refine ⟨s.read.1, ?_, ?_⟩
    · rw [List.length_nil, List.replicate_one, Reader.answers, Reader.answers, (h.look hseq).1]
      rfl
    · rcases s.read_cases with ⟨e, -, hevent, -⟩ | ⟨hread, -, hmarked, -⟩ | ⟨hread, -, hmarked⟩
      · cases hunread.symm.trans hevent
      · exact ⟨fun _ => hread, fun hne => absurd hmarked hne⟩
      · exact ⟨fun hm => absurd hm hmarked, fun _ => by rw [hread]⟩
  | cons e es ih =>
    obtain ⟨hlook, hhas, hnext⟩ := h.look hseq
    rcases s.read_cases with ⟨e', hread, hevent, hmarked, -⟩ | ⟨-, hevent, -⟩ | ⟨-, hevent, -⟩
    · obtain ⟨rfl, hrest⟩ := List.cons.inj (hunread.symm.trans hevent)
      obtain ⟨last, hanswers, hlast⟩ := ih hhas (hnext (by rw [hread]; exact nofun)) hrest.symm
      refine ⟨last, ?_, by rwa [hmarked] at hlast⟩
      rw [List.length_cons, List.replicate_succ, Reader.answers, hlook, hread, hanswers]
      rfl
    · cases hunread.symm.trans hevent
    · cases hunread.symm.trans hevent

/-- A number of looks at a sequence finds as many of the events that can still be read. -/
theorem Has.events_looks (h : x.Has s) (hseq : x.handle = .sequence false) (n : Nat) :
    Reading.events (x.answers (List.replicate n .look)) = s.unread.take n := by
  induction n generalizing x s with
  | zero => rfl
  | succ n ih =>
    obtain ⟨hlook, hhas, hnext⟩ := h.look hseq
    rw [List.replicate_succ, Reader.answers, hlook, Reading.events_append]
    rcases s.read_cases with
      ⟨e, hread, hunread, -⟩ | ⟨hread, hunread, -, hclosed⟩ | ⟨hread, hunread, -⟩
    · rw [ih hhas (hnext (by rw [hread]; exact nofun)), hread, hunread]
      rfl
    · rw [hread, hunread, Reading.events_eq_nil (hhas.answers_of_closed hclosed _), List.take_nil]
      rfl
    · rw [ih hhas (hnext (by rw [hread]; exact nofun)), hread, hunread, List.take_nil]
      rfl

end Reader

/-! ## Until the end -/

/-- **Reading a subscription.** Whatever happens around a subscription after it was made, and
however its holder reads it, the events read are the first of those put into its mailbox before a
disconnect closed it, in their order and each once, and the others can still be read: a fresh
sequence finds them, and behind them the end if there was a disconnect. Whoever has been told of the
end has read all of them, and is told nothing else from then on, whatever the others do. A disconnect
from before the subscription was made does not close it. -/
theorem read_until_closed (before : List (Act α)) (scope : Scope)
    (moves : List (Move α (run {} before : Bus α).nextId)) :
    let b : Bus α := run {} before
    let x : Reader α b.nextId := { bus := b.subscribe scope }
    let acts := x.acts moves
    let answers := x.answers moves
    (x.after moves).bus = run {} (before ++ .subscribe scope :: acts) ∧
      ∃ left,
        Reading.events answers ++ left =
          Delivery.events (x.bus.mail b.nextId (acts.takeWhile (!·.closes))) ∧
        (.closed ∈ answers → left = [] ∧ acts.any (·.closes) = true) ∧
        (∀ ms ms', moves = ms ++ ms' → .closed ∈ x.answers ms →
          ∀ r ∈ (x.after ms).answers ms', r = .closed) ∧
        (x.after moves).answers (.iterate :: List.replicate (left.length + 1) .look) =
          left.map .event ++ [if acts.any (·.closes) then .closed else .waiting] := by
  intro b x acts answers
  have hagrees : b.Agrees := agrees_run before
  have hmailbox := hagrees.subscription?_subscribe scope
  have hstart : x.Account x.bus scope _ [] [] := {
    agrees := hagrees.subscribe scope
    mailbox := hmailbox
    ended := nofun
    ran := rfl
    scope_eq := rfl
    events := rfl
    marked := iff_of_false (not_or.2 ⟨Bool.false_ne_true, List.not_mem_nil⟩) Bool.false_ne_true
    closed := nofun }
  obtain ⟨s, h⟩ := hstart.after moves
  have hput : Delivery.events (x.bus.mail b.nextId (acts.takeWhile (!·.closes))) =
      (x.bus.heard acts).filter (scope.covers ·.channel) :=
    (hagrees.subscribe scope).events_mail_of_kept hmailbox fun a ha =>
      Reader.drops_of_mem_acts ((List.takeWhile_sublist _).mem ha)
  refine ⟨?_, s.unread, h.events.trans hput.symm, fun hend => ?_, fun ms ms' _ hend => ?_, ?_⟩
  · rw [run_append]
    exact h.ran
  · have hclosed := h.closed hend
    exact ⟨Subscription.unread_of_closed hclosed, h.marked.1 (.inl hclosed)⟩
  · obtain ⟨s', h'⟩ := hstart.after ms
    exact h'.answers_of_closed (h'.closed hend) ms'
  · have hseq : ((x.after moves).move .iterate).Has s := ⟨h.agrees, h.mailbox, nofun⟩
    obtain ⟨last, hanswers, hclosed, hwaiting⟩ := hseq.answers_looks rfl
    refine hanswers.trans ?_
    split
    · next hany => rw [hclosed (h.marked.2 hany)]
    · next hany => rw [hwaiting (mt h.marked.1 hany)]

/-- Two events and a disconnect; a call is abandoned while it waits, and a sequence after its first
event. Behind the end comes an event of the next connection. -/
theorem read_until_closed_reconnected :
    let event (n : Nat) : Event Nat := { channel := "a", payload := n }
    let hand (n : Nat) : List (Move Nat 0) :=
      [.other (.publish (event n)) ⟨nofun, nofun⟩, .other .dispatch ⟨nofun, nofun⟩]
    let start : List (Move Nat 0) := [.call, .look, .letGo] ++ hand 1 ++ hand 2 ++
      [.iterate, .look, .letGo, .other .detach ⟨nofun, nofun⟩, .other .closeAll ⟨nofun, nofun⟩,
        .call, .look, .iterate, .look]
    let later : List (Move Nat 0) :=
      .other (.connect true) ⟨nofun, nofun⟩ :: hand 3 ++ [.look, .call, .look]
    let x : Reader Nat 0 := { bus := (run {} [.connect true] : Bus Nat).subscribe (.channel "a") }
    let put := (x.acts (start ++ later)).takeWhile (!·.closes)
    .closed ∈ x.answers start ∧
      Reading.events (x.answers (start ++ later)) = Delivery.events (x.bus.mail 0 put) ∧
      (Delivery.events (x.bus.mail 0 put)).map (·.payload) = [1, 2] ∧
      ∀ r ∈ (x.after start).answers later, r = .closed := by
  intro event hand start later x put
  have hmem : ∀ ms, (x.answers ms).any (· matches .closed) = true → .closed ∈ x.answers ms := by
    intro ms hany
    obtain ⟨r, hr, hclosed⟩ := List.any_eq_true.1 hany
    cases r with
    | closed => exact hr
    | _ => cases hclosed
  have hstart := hmem start (by decide)
  obtain ⟨-, left, hput, hend, hlater, -⟩ :=
    read_until_closed [.connect true] (.channel "a") (start ++ later)
  refine ⟨hstart, ?_, by decide, hlater start later rfl hstart⟩
  rw [(hend (hmem _ (by decide))).1, List.append_nil] at hput
  exact hput

end Bus

/-! ## In a schedule -/

namespace Schedule

variable {σ τ : Type} {id : SubscriptionId} {sub : Subscription α}

/-- What is pulled are the first events that can still be read. -/
theorem fst_pull {s : Schedule α σ τ} (hs : s.bus.subscription? id = some sub) (n : Nat) :
    (s.pull n id).1 = sub.unread.take n := by
  induction n generalizing s sub with
  | zero => rfl
  | succ n ih =>
    have hpeek : s.peek id = sub.read.1 := by rw [peek, Bus.read, hs]
    have htaken : (s.taken id).bus.subscription? id = some sub.read.2 :=
      Bus.subscription?_read_self hs
    rw [pull, hpeek]
    rcases sub.read_cases with ⟨e, hread, hunread, -⟩ | ⟨hread, hunread, -⟩ | ⟨hread, hunread, -⟩
    · rw [hread, hunread, List.take_succ_cons, ← ih htaken]
    · rw [hread, hunread]
      rfl
    · rw [hread, hunread]
      rfl

/-- Pulling a number of events is looking that often at a sequence. -/
theorem fst_pull_eq_looks {s : Schedule α σ τ} {x : Bus.Reader α id} (hx : x.Has sub)
    (hseq : x.handle = .sequence false) (hbus : s.bus = x.bus) (n : Nat) :
    (s.pull n id).1 = Reading.events (x.answers (List.replicate n .look)) :=
  (fst_pull (hbus ▸ hx.mailbox) n).trans (hx.events_looks hseq n).symm

end Schedule
end Parley
