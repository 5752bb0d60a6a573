import Parley.Proofs.Bus.Conduct
import Parley.Proofs.Bus.Order
import Parley.Proofs.Schedule.Queue

/-!
# What a join waits for

An event is due to be handed out when it is published while somebody listens to its channel, and
when it is replayed to the first listener (`queues`). What a run makes due it has handed out, in this
order, or it is still queued (`Agrees.due_run`). The backend counts what is queued exactly
(`Counted`), so a join finds nothing pending only when everything that was due has been handed out.
Only the dispatcher brings that about (`Counted.eq_dispatch_of_idle`), and in the turn in which it
does it rouses those who wait (`mem_ready_dispatchTurn_of_idle`). `join_flushes` puts it together.
-/

set_option autoImplicit false

namespace Parley

namespace Bus

variable {α : Type} {b : Bus α}

/-- Somebody listens to the channel, to it alone or to all. -/
def attended (b : Bus α) (c : String) : Bool := b.roster.any (·.2.covers c)

/-- The events that an act makes due: what is published to a listener, and what is replayed. -/
def queues (b : Bus α) : Act α → List (Event α)
  | .publish e => if b.attended e.channel then [e] else []
  | .subscribe scope => b.backend.missed.filter (scope.covers ·.channel)
  | _ => []

/-- The events that become due in a run from `b`, in this order. -/
def due (b : Bus α) : List (Act α) → List (Event α)
  | [] => []
  | a :: acts => b.queues a ++ (b.act a).due acts

theorem Agrees.hears_eq (h : b.Agrees) (c : String) : b.backend.hears c = b.attended c := by
  rw [Bool.eq_iff_iff, attended, List.any_eq_true]
  constructor
  · intro hc
    obtain ⟨scope, hcov, hopen⟩ := (Backend.hears_iff _ _).1 hc
    rw [h.opened, Table.isListed_iff h.table, h.listed] at hopen
    obtain ⟨id, hid⟩ := List.exists_mem_of_ne_nil _ hopen
    exact ⟨(id, scope), mem_under.1 hid, hcov⟩
  · rintro ⟨x, hx, hcov⟩
    exact h.hears_of_mem hx hcov

/-! ## What is due -/

theorem queue_open? (backend : Backend α) (scope : Scope) :
    (open? backend scope).queue =
      backend.queue ++ backend.missed.filter (scope.covers ·.channel) := by
  cases scope with
  | channel c =>
    rw [open?, Backend.queue_subscribe]
    congr 1
    apply List.filter_congr
    intro e _
    exact BEq.comm
  | universal => simp [open?, Backend.universalSubscribe, Backend.enqueue, Scope.covers]

/-- Under a scope that is listed nothing is held back. -/
theorem Agrees.filter_missed_of_listed (h : b.Agrees) {scope : Scope}
    (hl : b.table.isListed scope = true) :
    b.backend.missed.filter (scope.covers ·.channel) = [] := by
  rw [List.filter_eq_nil_iff]
  intro e he hcov
  have hn := h.held e he
  rw [(Backend.hears_iff _ _).2 ⟨scope, hcov, (h.opened scope).trans hl⟩] at hn
  cases hn

theorem Agrees.queue_subscribe (h : b.Agrees) (scope : Scope) :
    (b.subscribe scope).backend.queue =
      b.backend.queue ++ b.backend.missed.filter (scope.covers ·.channel) := by
  simp only [Bus.subscribe]
  split
  · next hl => rw [h.filter_missed_of_listed hl, List.append_nil]
  · exact queue_open? b.backend scope

theorem Agrees.queue_publish (h : b.Agrees) (e : Event α) :
    (b.publish e).backend.queue = b.backend.queue ++ b.queues (.publish e) := by
  simp only [queues, ← h.hears_eq]
  cases hh : b.backend.hears e.channel
  · simp [Bus.publish, Backend.publish_of_unheard hh]
  · simp [Bus.publish, Backend.publish_of_heard hh, Backend.enqueue]

/-- One act queues what it makes due, and nothing else leaves the queue than what it hands out. -/
theorem Agrees.due_act (h : b.Agrees) (a : Act α) :
    b.backend.queue ++ b.queues a = b.handsOut a ++ (b.act a).backend.queue := by
  rcases lists_cases b a with
    ⟨e, rfl⟩ | ⟨scope, rfl, -⟩ | ⟨e, rfl, hqueue, hout, -⟩ | ⟨hnone, hout, hqueue, -⟩
  · exact (h.queue_publish e).symm
  · exact (h.queue_subscribe scope).symm
  · simp [queues, hout, ← hqueue]
  · cases a with
    | publish e => simp [published, Act.event?] at hnone
    | subscribe scope => exact (h.queue_subscribe scope).symm
    | _ => simp [queues, hout, hqueue]

/-- **What is due** has been handed out, in the order in which it became due, or is still queued. -/
theorem Agrees.due_run (h : b.Agrees) (acts : List (Act α)) :
    b.backend.queue ++ b.due acts = b.handed acts ++ (b.run acts).backend.queue := by
  induction acts generalizing b with
  | nil => simp [due, handed]
  | cons a acts ih =>
    rw [due, handed, run_cons, ← List.append_assoc, h.due_act, List.append_assoc, ih (h.act a),
      List.append_assoc]

/-- A subscription that is not dropped has been mailed all that was queued when it was made and all
that became due since, as far as it covers that, except for what is still queued. -/
theorem Agrees.mail_due (h : b.Agrees) (scope : Scope) {rest : List (Act α)}
    (hkept : ∀ a ∈ rest, a.drops b.nextId = false) :
    Delivery.events (b.mail b.nextId (.subscribe scope :: rest)) ++
      (b.run (.subscribe scope :: rest)).backend.queue.filter (scope.covers ·.channel) =
        (b.backend.queue ++ b.due (.subscribe scope :: rest)).filter (scope.covers ·.channel) := by
  have hmail := (h.subscribe scope).events_mail_of_kept (h.subscription?_subscribe scope) hkept
  have hsame : b.mail b.nextId (.subscribe scope :: rest) =
      (b.subscribe scope).mail b.nextId rest := rfl
  rw [h.due_run, List.filter_append, hsame, hmail]
  rfl

/-! ## The count -/

theorem Counted.isIdle_iff (h : b.Counted) : b.isIdle = true ↔ b.backend.queue = [] := by
  simp [isIdle, Backend.isIdle, show b.backend.pending = _ from h]

/-- A turn of the dispatcher takes off the count what it hands out: what is acknowledged had been
counted. -/
theorem Counted.pending_dispatch (h : b.Counted) :
    b.dispatch.backend.pending + (b.handsOut .dispatch).length = b.backend.pending := by
  have h' : b.dispatch.backend.pending = b.dispatch.backend.queue.length := h.act .dispatch
  rcases dispatch_cases b with hr | ⟨e, rest, hc, hq⟩
  · rw [dispatch_of_rest hr, handsOut_of_rest hr]
    rfl
  · rw [h', show b.backend.pending = _ from h, dispatch_cons hc hq, handsOut_cons hc hq, hq]
    rfl

/-- The wait of a join is ended by the dispatcher and by nobody else. -/
theorem Counted.eq_dispatch_of_idle (h : b.Counted) (hb : b.isIdle = false) {a : Act α}
    (ha : (b.act a).isIdle = true) : a = .dispatch := by
  by_contra hne
  have hqueue : b.backend.queue ≠ [] := fun hq => by
    rw [h.isIdle_iff.2 hq] at hb
    cases hb
  obtain ⟨e, he⟩ := List.exists_mem_of_ne_nil _ hqueue
  have hmem := mem_queue_act he hne
  rw [(h.act a).isIdle_iff.1 ha] at hmem
  exact List.not_mem_nil hmem

end Bus

/-- The turn that hands out the last event rouses everyone who waits for that. -/
theorem Schedule.mem_ready_dispatchTurn_of_idle {α σ τ : Type} [Standing τ] {s : Schedule α σ τ}
    {d : TaskId} (hq : s.bus.backend.queue ≠ []) (hidle : (s.dispatchTurn d).isIdle = true)
    {t : Task τ} (ht : t ∈ s.tasks) (hwaits : heeds .idle t = true) :
    t.id ∈ (s.dispatchTurn d).ready := by
  obtain ⟨e, rest, hq⟩ := List.exists_cons_of_ne_nil hq
  have htold := roused_signals { s with bus := s.bus.dispatch } (s.bus.recipients e.channel)
  simp only [dispatchTurn, hq] at hidle ⊢
  split at hidle
  · next h =>
    rw [if_pos h]
    apply List.mem_cons_of_mem
    refine mem_ready_signal ?_ hwaits
    rw [htold.tasks]
    exact ht
  · next h => exact absurd hidle h

namespace Bus

variable {α : Type}

/-- **A join waits for what is queued, exactly.** After every run the count of pending events is the
number of queued events, and every acknowledgement takes one off it. So a join can finish exactly if
the queue is empty, and it is woken in the turn that empties the queue, which is one of the
dispatcher's. Then everything that was ever due has been handed out, in the order in which it became
due, and every subscription that is left has been mailed what was queued when it was made and what
became due since, as far as it covers that. -/
theorem join_flushes (acts : List (Act α)) :
    let b : Bus α := run {} acts
    b.backend.pending = b.backend.queue.length ∧
    (b.act .dispatch).backend.pending + (b.handsOut .dispatch).length = b.backend.pending ∧
    (b.isIdle = true ↔ b.backend.queue = []) ∧
    (∀ a, b.isIdle = false → (b.act a).isIdle = true → a = .dispatch) ∧
    (∀ (σ τ : Type) [Standing τ] (s : Schedule α σ τ) (d : TaskId), s.bus = b → b.isIdle = false →
      (s.dispatchTurn d).isIdle = true →
        ∀ t ∈ s.tasks, Schedule.heeds .idle t = true → t.id ∈ (s.dispatchTurn d).ready) ∧
    due {} acts = handed {} acts ++ b.backend.queue ∧
    (b.isIdle = true → due {} acts = handed {} acts ∧
      ∀ before scope rest, acts = before ++ .subscribe scope :: rest →
        let x : Bus α := run {} before
        (∀ a ∈ rest, a.drops x.nextId = false) →
          Delivery.events (x.mail x.nextId (.subscribe scope :: rest)) =
            (x.backend.queue ++ x.due (.subscribe scope :: rest)).filter
              (scope.covers ·.channel)) := by
  intro b
  have hcounted : b.Counted := counted_run acts
  have hdue : due {} acts = handed {} acts ++ b.backend.queue :=
    (List.nil_append _).symm.trans (agrees_empty.due_run acts)
  refine ⟨hcounted, hcounted.pending_dispatch, hcounted.isIdle_iff,
    fun a hb ha => hcounted.eq_dispatch_of_idle hb ha, ?_, hdue, fun hidle => ⟨?_, ?_⟩⟩
  · intro σ τ _ s d hs hb hidle t ht hwaits
    apply Schedule.mem_ready_dispatchTurn_of_idle _ hidle ht hwaits
    intro hq
    rw [hcounted.isIdle_iff.2 (hs ▸ hq)] at hb
    cases hb
  · rw [hdue, hcounted.isIdle_iff.1 hidle, List.append_nil]
  · intro before scope rest hacts x hkept
    have hmail := (agrees_run before : x.Agrees).mail_due scope hkept
    have hb : x.run (.subscribe scope :: rest) = b := by
      simp only [x, b, hacts, run_append]
    rwa [hb, hcounted.isIdle_iff.1 hidle, List.filter_nil, List.append_nil] at hmail

end Bus

end Parley
