import Parley.Proofs.Bus.Delivery

/-!
# The backend conserves events

What may be asked of a backend is a `Backend.Call`; a call may be refused (`outcome`), and then it
changes nothing. A run is any list of calls. Two lists are read off it: what was `published`, and
what was `given` to the dispatcher.

An event that was published has been given out, is queued or is held back, and on every channel this
is the order of publication (`Sound.on_run`). Held back are exactly the events whose channel nobody
has heard from their publication on (`Sound.missed_run`). Both rest on `Sound`: nothing is held back
that somebody hears.
-/

set_option autoImplicit false

namespace Parley.Backend

variable {α : Type}

/-- What may be asked of a backend. -/
inductive Call (α : Type)
  | subscribe (channel : String)
  | unsubscribe (channel : String)
  | universalSubscribe
  | universalUnsubscribe
  | publish (e : Event α)
  /-- Takes the oldest queued event; with an empty queue the call waits and changes nothing. -/
  | next
  | taskDone

def Call.event? : Call α → Option (Event α)
  | publish e => some e
  | _ => none

/-- The backend after a call, or what the call complains about. -/
def outcome (b : Backend α) : Call α → Except BusError (Backend α)
  | .subscribe c => .ok (b.subscribe c)
  | .unsubscribe c => b.unsubscribe c
  | .universalSubscribe => .ok b.universalSubscribe
  | .universalUnsubscribe => b.universalUnsubscribe
  | .publish e => .ok (b.publish e)
  | .next => .ok ((b.next?.map (·.2)).getD b)
  | .taskDone => .ok b.taskDone

/-- The backend after a call. A call that is refused changes nothing. -/
def call (b : Backend α) (a : Call α) : Backend α :=
  match b.outcome a with
  | .ok b' => b'
  | .error _ => b

def run (b : Backend α) (calls : List (Call α)) : Backend α := calls.foldl call b

/-! ## What is read off a run -/

/-- The events that are published by the calls, in this order. -/
def published (calls : List (Call α)) : List (Event α) := calls.filterMap (·.event?)

theorem published_cons (a : Call α) (calls : List (Call α)) :
    published (a :: calls) = published [a] ++ published calls :=
  List.filterMap_append (l := [a])

/-- The events that a call gives to the dispatcher. -/
def gives (b : Backend α) : Call α → List (Event α)
  | .next => b.queue.take 1
  | _ => []

/-- The events that are given to the dispatcher in a run from `b`, in this order. -/
def given (b : Backend α) : List (Call α) → List (Event α)
  | [] => []
  | a :: calls => b.gives a ++ (b.call a).given calls

/-- Nobody hears the channel, neither now nor after any of the calls. -/
def unheard (b : Backend α) (c : String) : List (Call α) → Bool
  | [] => !b.hears c
  | a :: calls => !b.hears c && (b.call a).unheard c calls

/-- The events published in a run from `b` whose channel nobody has heard since, oldest first. -/
def unheardOf (b : Backend α) : List (Call α) → List (Event α)
  | [] => []
  | a :: calls =>
    (published [a]).filter (b.unheard ·.channel (a :: calls)) ++ (b.call a).unheardOf calls

theorem unheardOf_sublist (b : Backend α) (calls : List (Call α)) :
    (b.unheardOf calls).Sublist (published calls) := by
  induction calls generalizing b with
  | nil => exact List.nil_sublist _
  | cons a calls ih =>
    rw [published_cons]
    exact List.filter_sublist.append (ih _)

/-! ## Refusals -/

/-- Only an unsubscription is ever refused, and only if there is nothing to take back. -/
theorem outcome_eq_error {b : Backend α} {a : Call α} {e : BusError} :
    b.outcome a = .error e ↔
      (∃ c, a = .unsubscribe c ∧ b.isSubscribed c = false ∧ e = .notSubscribed c) ∨
        a = .universalUnsubscribe ∧ b.universal = false ∧ e = .notSubscribed "<universal>" := by
  cases a with
  | unsubscribe c =>
    cases hc : b.isSubscribed c <;> simp [outcome, Backend.unsubscribe, hc, @eq_comm _ e]
  | universalUnsubscribe =>
    cases hu : b.universal <;> simp [outcome, Backend.universalUnsubscribe, hu, @eq_comm _ e]
  | _ => simp [outcome]

theorem call_of_error {b : Backend α} {a : Call α} {e : BusError} (h : b.outcome a = .error e) :
    b.call a = b := by
  rw [call, h]

/-- A scope that is shut or was not open keeps all events, and opens no other. -/
theorem call_shut (b : Backend α) {a : Call α}
    (ha : a = .universalUnsubscribe ∨ ∃ c, a = .unsubscribe c) :
    (b.call a).queue = b.queue ∧ (b.call a).missed = b.missed ∧
      ∀ scope, (b.call a).isOpen scope = true → b.isOpen scope = true := by
  cases hout : b.outcome a with
  | error e =>
    rw [call_of_error hout]
    exact ⟨rfl, rfl, fun _ h => h⟩
  | ok b' =>
    obtain ⟨scope, hshut⟩ : ∃ scope, Bus.shut b scope = .ok b' := by
      obtain rfl | ⟨c, rfl⟩ := ha
      · exact ⟨.universal, hout⟩
      · exact ⟨.channel c, hout⟩
    have hopen : b.isOpen scope = true := by
      cases scope <;>
        simp only [Bus.shut, Backend.unsubscribe, Backend.universalUnsubscribe] at hshut <;>
        split at hshut <;> first | assumption | cases hshut
    obtain ⟨_, hshut', hother, hmissed, hqueue⟩ := Bus.shut_of_isOpen hopen
    cases hshut.symm.trans hshut'
    rw [call, hout]
    refine ⟨hqueue, hmissed, fun other ho => ?_⟩
    rw [hother, Bool.and_eq_true] at ho
    exact ho.2

/-! ## Who hears what -/

theorem hears_of_isOpen {b b' : Backend α}
    (h : ∀ scope, b'.isOpen scope = true → b.isOpen scope = true) {c : String}
    (hc : b'.hears c = true) : b.hears c = true := by
  obtain ⟨scope, hcov, ho⟩ := (hears_iff b' c).1 hc
  exact (hears_iff b c).2 ⟨scope, hcov, h scope ho⟩

theorem hears_subscribe (b : Backend α) (c d : String) :
    (b.subscribe c).hears d = (d == c || b.hears d) := by
  have hchannel := Bus.isOpen_open? b (.channel c) (.channel d)
  have huniversal := Bus.isOpen_open? b (.channel c) .universal
  simp only [Bus.open?, isOpen] at hchannel huniversal
  rw [hears, hears, hchannel, huniversal, Bool.or_left_comm]
  congr 1
  by_cases hd : d = c <;> simp [hd]

theorem hears_publish (b : Backend α) (e : Event α) (c : String) :
    (b.publish e).hears c = b.hears c := by
  have hchannel := isOpen_publish b e (.channel c)
  have huniversal := isOpen_publish b e .universal
  simp only [isOpen] at hchannel huniversal
  rw [hears, hears, hchannel, huniversal]

theorem call_next (b : Backend α) :
    b.call .next = { b with queue := b.queue.tail } := by
  cases b with
  | mk live universal missed queue pending => cases queue <;> rfl

/-! ## One call -/

/-- Nothing is held back that somebody hears. -/
def Sound (b : Backend α) : Prop := ∀ e ∈ b.missed, b.hears e.channel = false

theorem sound_empty : Sound ({} : Backend α) := nofun

variable {b : Backend α}

/-- A channel that somebody hears holds nothing back. -/
theorem Sound.on_missed (h : b.Sound) {c : String} (hc : b.hears c = true) :
    Event.on c b.missed = [] :=
  List.filter_eq_nil_iff.2 fun e he hec => by
    have := h e he
    rw [eq_of_beq hec, hc] at this
    cases this

/-- What a call leaves held back is what was held back before or is published by it, as far as
nobody hears it then. -/
theorem Sound.missed_call (h : b.Sound) (a : Call α) :
    (b.call a).missed =
      (b.missed ++ published [a]).filter fun e => !(b.call a).hears e.channel := by
  have hkept : ∀ b' : Backend α, (∀ scope, b'.isOpen scope = true → b.isOpen scope = true) →
      b.missed = (b.missed ++ []).filter fun e => !b'.hears e.channel := fun b' hle => by
    rw [List.append_nil, eq_comm, List.filter_eq_self]
    intro e he
    rw [Bool.not_eq_true', ← Bool.not_eq_true]
    intro hh
    have := h e he
    rw [hears_of_isOpen hle hh] at this
    cases this
  cases a with
  | subscribe c =>
    change (b.subscribe c).missed = (b.missed ++ []).filter _
    rw [missed_subscribe, List.append_nil]
    refine List.filter_congr fun e he => ?_
    change _ = !(b.subscribe c).hears e.channel
    rw [hears_subscribe, h e he, Bool.or_false]
    rfl
  | unsubscribe c =>
    obtain ⟨-, hmissed, hle⟩ := b.call_shut (a := .unsubscribe c) (.inr ⟨c, rfl⟩)
    rw [hmissed]
    exact hkept _ hle
  | universalSubscribe =>
    refine (List.filter_eq_nil_iff.2 fun e _ => ?_).symm
    simp [call, outcome, universalSubscribe, enqueue, hears]
  | universalUnsubscribe =>
    obtain ⟨-, hmissed, hle⟩ := b.call_shut (a := .universalUnsubscribe) (.inl rfl)
    rw [hmissed]
    exact hkept _ hle
  | publish e =>
    change (b.publish e).missed =
      (b.missed ++ [e]).filter fun x => !(b.publish e).hears x.channel
    simp only [hears_publish]
    rw [List.filter_append, List.filter_eq_self.2 fun x hx => by rw [h x hx]; rfl]
    cases hh : b.hears e.channel
    · rw [publish_of_unheard hh, List.filter_singleton, hh]
      rfl
    · rw [publish_of_heard hh, List.filter_singleton, hh]
      exact (List.append_nil _).symm
  | next =>
    rw [call_next]
    exact hkept _ fun scope ho => by cases scope <;> exact ho
  | taskDone => exact hkept b.taskDone fun scope ho => by cases scope <;> exact ho

theorem Sound.call (h : b.Sound) (a : Call α) : (b.call a).Sound := by
  intro e he
  rw [h.missed_call] at he
  simpa using (List.mem_filter.1 he).2

theorem Sound.run (h : b.Sound) (calls : List (Call α)) : (b.run calls).Sound := by
  induction calls generalizing b with
  | nil => exact h
  | cons a calls ih => exact ih (h.call a)

/-- One call moves nothing out of its order. -/
theorem Sound.on_call (h : b.Sound) (a : Call α) (c : String) :
    Event.on c (b.queue ++ b.missed) ++ Event.on c (published [a]) =
      Event.on c (b.gives a) ++ Event.on c ((b.call a).queue ++ (b.call a).missed) := by
  have hsame : ∀ b' : Backend α, b'.queue = b.queue → b'.missed = b.missed →
      Event.on c (b.queue ++ b.missed) ++ [] = Event.on c (b'.queue ++ b'.missed) :=
    fun b' hq hm => by rw [hq, hm, List.append_nil]
  cases a with
  | subscribe d => exact (List.append_nil _).trans (Bus.on_open? b (.channel d) c).symm
  | unsubscribe d =>
    obtain ⟨hqueue, hmissed, -⟩ := b.call_shut (a := .unsubscribe d) (.inr ⟨d, rfl⟩)
    exact hsame _ hqueue hmissed
  | universalSubscribe => exact (List.append_nil _).trans (Bus.on_open? b .universal c).symm
  | universalUnsubscribe =>
    obtain ⟨hqueue, hmissed, -⟩ := b.call_shut (a := .universalUnsubscribe) (.inl rfl)
    exact hsame _ hqueue hmissed
  | publish e =>
    change _ ++ Event.on c [e] = Event.on c ((b.publish e).queue ++ (b.publish e).missed)
    rw [Bus.on_publish h, Event.on_append c (_ ++ _)]
  | next =>
    rw [call_next]
    change _ ++ [] = Event.on c (b.queue.take 1) ++ Event.on c (b.queue.tail ++ b.missed)
    rw [List.append_nil, ← Event.on_append, ← List.append_assoc, ← List.drop_one,
      List.take_append_drop]
  | taskDone => exact hsame _ rfl rfl

/-! ## All calls -/

/-- On every channel, what was published is what was given out, then what is queued, and then what
is held back. -/
theorem Sound.on_run (h : b.Sound) (calls : List (Call α)) (c : String) :
    Event.on c (b.queue ++ b.missed) ++ Event.on c (published calls) =
      Event.on c (b.given calls) ++ Event.on c ((b.run calls).queue ++ (b.run calls).missed) := by
  induction calls generalizing b with
  | nil => exact List.append_nil _
  | cons a calls ih =>
    calc Event.on c (b.queue ++ b.missed) ++ Event.on c (published (a :: calls))
        = Event.on c (b.queue ++ b.missed) ++ Event.on c (published [a]) ++
            Event.on c (published calls) := by
          rw [published_cons, Event.on_append c (published [a]), List.append_assoc]
      _ = Event.on c (b.gives a) ++ (Event.on c ((b.call a).queue ++ (b.call a).missed) ++
            Event.on c (published calls)) := by
          rw [h.on_call, List.append_assoc]
      _ = Event.on c (b.given (a :: calls)) ++
            Event.on c ((b.run (a :: calls)).queue ++ (b.run (a :: calls)).missed) := by
          rw [ih (h.call a), given, Event.on_append c (b.gives a), List.append_assoc]
          rfl

theorem unheard_cons_imp {c : String} {a : Call α} {calls : List (Call α)}
    (h : (b.call a).unheard c calls = true) : (b.call a).hears c = false := by
  cases calls <;> simp_all [unheard]

/-- What a call publishes is heard after it exactly if it was heard before. -/
theorem hears_call_of_mem {a : Call α} {e : Event α} (he : e ∈ published [a]) :
    (b.call a).hears e.channel = b.hears e.channel := by
  cases a with
  | publish x => exact hears_publish b x e.channel
  | _ => cases he

/-- **Held back is what nobody has heard**: what was held back before and what was published in the
run, as far as nobody has heard its channel since, in the order of publication. -/
theorem Sound.missed_run (h : b.Sound) (calls : List (Call α)) :
    (b.run calls).missed =
      b.missed.filter (b.unheard ·.channel calls) ++ b.unheardOf calls := by
  induction calls generalizing b with
  | nil =>
    refine ((List.append_nil _).trans (List.filter_eq_self.2 fun e he => ?_)).symm
    rw [unheard, h e he]
    rfl
  | cons a calls ih =>
    -- being unheard from the next state on includes being unheard in it
    have hnext : ∀ {c}, b.hears c = false →
        (!(b.call a).hears c && (b.call a).unheard c calls) = b.unheard c (a :: calls) := by
      intro c hc
      rw [unheard, hc, Bool.not_false, Bool.true_and, Bool.and_eq_right_iff_imp]
      intro hun
      rw [unheard_cons_imp hun, Bool.not_false]
    change ((b.call a).run calls).missed = _
    rw [ih (h.call a), h.missed_call, List.filter_filter, List.filter_append, unheardOf,
      List.append_assoc]
    congr 1
    · refine List.filter_congr fun e he => ?_
      rw [Bool.and_comm]
      exact hnext (h e he)
    · refine congrArg (· ++ _) (List.filter_congr fun e he => ?_)
      rw [Bool.and_comm]
      cases hh : b.hears e.channel
      · exact hnext hh
      · rw [hears_call_of_mem he, unheard, hh]

/-- Lists with the same events on every channel have the same events. -/
theorem perm_of_on {xs ys : List (Event α)} (h : ∀ c, Event.on c xs = Event.on c ys) :
    xs.Perm ys := by
  classical
  rw [List.perm_iff_count]
  intro e
  have hcount : ∀ l : List (Event α), l.count e = (Event.on e.channel l).count e := fun l =>
    (List.count_filter (by simp)).symm
  rw [hcount, h, ← hcount]

theorem bufferedCount_eq (b : Backend α) (c : String) :
    b.bufferedCount c = (Event.on c b.missed).length := List.countP_eq_length_filter

end Parley.Backend
