import Parley.Proofs.Bus.Bystander
import Parley.Proofs.Bus.Quiet

/-!
# The first listener

While nobody listens on a channel, what is published there is held back, all of it and in order
(`missed_of_unattended`). Who then listens to several channels, one after the other, is handed the
events of the first channel first, then those of the second, and so on (`Agrees.queue_listen`). So
whatever comes behind an event of the first channel in the order of publication comes behind it in
the order in which they are handed out (`Event.Behind`, `behind_published`).
-/

set_option autoImplicit false

namespace Parley

namespace Bus

variable {α : Type} {b : Bus α} {c : String}

/-- Nobody listens on the channel, and nothing of it is queued. -/
structure Unattended (c : String) (b : Bus α) : Prop where
  roster : ∀ x ∈ b.roster, x.2.covers c = false
  queue : Event.on c b.backend.queue = []

theorem Agrees.hears_unattended (h : b.Agrees) (hb : b.Unattended c) :
    b.backend.hears c = false := by
  rw [← Bool.not_eq_true, Backend.hears_iff]
  rintro ⟨scope, hcov, hopen⟩
  rw [h.opened, Table.isListed_iff h.table, h.listed] at hopen
  obtain ⟨id, hid⟩ := List.exists_mem_of_ne_nil _ hopen
  rw [hb.roster _ (mem_under.1 hid)] at hcov
  cases hcov

/-- The act makes nobody listen on the channel. -/
def Act.Leaves (c : String) (a : Act α) : Prop :=
  ∀ scope, a = .subscribe scope → scope.covers c = false

theorem Agrees.roster_leaves (h : b.Agrees) (hb : b.Unattended c) {a : Act α} (ha : a.Leaves c) :
    ∀ x ∈ (b.act a).roster, x.2.covers c = false := by
  intro x hx
  rw [show (b.act a).roster = _ from congrArg Prod.snd (enroll_act h a)] at hx
  cases a with
  | subscribe scope =>
    rcases List.mem_append.1 hx with hx | hx
    · exact hb.roster x hx
    · rw [List.mem_singleton.1 hx]
      exact ha scope rfl
  | drop i => exact hb.roster x (List.mem_of_mem_filter hx)
  | _ => exact hb.roster x hx

theorem Unattended.handsOut (hb : b.Unattended c) (a : Act α) :
    Event.on c (b.handsOut a) = [] := by
  cases a with
  | dispatch =>
    refine List.filter_eq_nil_iff.2 fun e he => List.filter_eq_nil_iff.1 hb.queue e ?_
    simp only [Bus.handsOut] at he
    split at he
    · exact List.mem_of_mem_take he
    · exact absurd he List.not_mem_nil
  | _ => rfl

theorem Agrees.unattended_act (h : b.Agrees) (hb : b.Unattended c) {a : Act α} (ha : a.Leaves c) :
    (b.act a).Unattended c := by
  refine ⟨h.roster_leaves hb ha, ?_⟩
  have hnone : ∀ id, (id, Scope.channel c) ∉ b.roster := fun id hid => by
    have hcov := hb.roster _ hid
    simp [Scope.covers] at hcov
  by_cases hspares : a.spares c b
  · exact (h.quiet_act hspares).queue.trans hb.queue
  · -- the acts that are left are a publication on the channel and the end of the bus
    cases a with
    | publish e =>
      obtain rfl : e.channel = c := not_not.1 hspares
      have hheld := Backend.publish_of_unheard (h.hears_unattended hb)
      exact (congrArg (fun x => Event.on e.channel (Backend.queue x)) hheld).trans hb.queue
    | closeAll =>
      rw [Bus.act, backend_closeAll]
      exact hb.queue
    | subscribe scope => exact absurd (ha scope rfl) hspares
    | drop id => exact absurd (hnone id) hspares
    | read id => exact absurd (hnone id) hspares
    | connect runtime => exact absurd trivial hspares
    | detach => exact absurd trivial hspares
    | dispatch => exact absurd (hb.handsOut .dispatch) hspares

theorem Agrees.unattended_run (h : b.Agrees) (hb : b.Unattended c) {acts : List (Act α)}
    (hacts : ∀ a ∈ acts, a.Leaves c) :
    (b.run acts).Unattended c ∧ Event.on c (b.handed acts) = [] := by
  induction acts generalizing b with
  | nil => exact ⟨hb, rfl⟩
  | cons a acts ih =>
    obtain ⟨hend, hhanded⟩ := ih (h.act a) (h.unattended_act hb (hacts a List.mem_cons_self))
      fun x hx => hacts x (List.mem_cons_of_mem _ hx)
    refine ⟨hend, ?_⟩
    rw [handed, Event.on_append, hb.handsOut a, hhanded]
    rfl

/-- **While nobody listens**, what is published is held back. -/
theorem missed_of_unattended {acts : List (Act α)} (hacts : ∀ a ∈ acts, a.Leaves c) :
    (run {} acts : Bus α).Unattended c ∧
      Event.on c (run {} acts : Bus α).backend.missed = Event.on c (published acts) := by
  obtain ⟨hb, hhanded⟩ := agrees_empty.unattended_run (c := c) ⟨nofun, rfl⟩ hacts
  refine ⟨hb, ?_⟩
  rw [published_eq, hhanded, backlog, Event.on_append, hb.queue]
  rfl

/-! ## Listening to several channels -/

/-- The first listener is handed what was held back on the channel, and all else stays held back. -/
theorem Agrees.subscribe_unattended (h : b.Agrees) (hb : b.Unattended c) :
    (b.subscribe (.channel c)).backend.queue = b.backend.queue ++ Event.on c b.backend.missed ∧
      (b.subscribe (.channel c)).backend.missed = b.backend.missed.filter (·.channel != c) := by
  have hnew : b.table.isListed (.channel c) = false := by
    rw [← Bool.not_eq_true, Table.isListed_iff h.table, h.listed, not_not]
    refine List.eq_nil_iff_forall_not_mem.2 fun id hid => ?_
    have hcov := hb.roster _ (mem_under.1 hid)
    simp [Scope.covers] at hcov
  rw [Bus.subscribe, hnew]
  exact ⟨rfl, rfl⟩

/-- Somebody listens to the channels, one after the other. -/
def listening (cs : List String) : List (Act α) := cs.map fun c => .subscribe (.channel c)

/-- **The first listener of several channels** is handed what was held back there, one channel after
the other. -/
theorem Agrees.queue_listen (h : b.Agrees) {cs : List String} (hcs : cs.Nodup)
    (hb : ∀ c ∈ cs, b.Unattended c) : (b.run (listening cs)).backend.queue =
      b.backend.queue ++ cs.flatMap fun c => Event.on c b.backend.missed := by
  -- to listen to one channel takes what waits there and leaves what waits on the others
  induction cs generalizing b with
  | nil => exact (List.append_nil _).symm
  | cons c cs ih =>
    obtain ⟨hc, hcs⟩ := List.nodup_cons.1 hcs
    obtain ⟨hqueue, hmissed⟩ := h.subscribe_unattended (hb c List.mem_cons_self)
    have hrest : ∀ d ∈ cs, (b.subscribe (.channel c)).Unattended d := fun d hd => by
      refine h.unattended_act (a := .subscribe (.channel c)) (hb d (List.mem_cons_of_mem _ hd)) ?_
      rintro scope hscope
      cases hscope
      have hne : c ≠ d := fun heq => hc (heq ▸ hd)
      simpa [Scope.covers] using hne
    have hother : ∀ d ∈ cs, Event.on d (b.subscribe (.channel c)).backend.missed =
        Event.on d b.backend.missed := fun d hd => by
      rw [hmissed, Event.on, List.filter_filter]
      refine List.filter_congr fun e _ => ?_
      cases hed : e.channel == d with
      | false => rfl
      | true =>
        have hne : e.channel ≠ c := fun heq => hc (heq ▸ eq_of_beq hed ▸ hd)
        simpa using hne
    change ((b.subscribe (.channel c)).run (listening cs)).backend.queue = _
    rw [ih (h.subscribe (.channel c)) hcs hrest, hqueue, List.flatMap_cons, List.append_assoc]
    exact congrArg (fun l => b.backend.queue ++ (Event.on c b.backend.missed ++ l))
      (List.flatMap_congr hother)

theorem subscription?_listening_of_lt (cs : List String) {id : SubscriptionId}
    (h : id < b.nextId) : (b.run (listening cs)).subscription? id = b.subscription? id := by
  induction cs generalizing b with
  | nil => rfl
  | cons c cs ih =>
    change ((b.subscribe (.channel c)).run (listening cs)).subscription? id = _
    have hlt : id < (b.subscribe (.channel c)).nextId := Nat.lt_succ_of_lt h
    rw [ih hlt, subscription?_subscribe_of_ne b _ (Nat.ne_of_gt h)]

/-- The listener has a subscription for each of the channels, numbered in their order. -/
theorem Agrees.subscription?_listening (h : b.Agrees) {cs : List String} {i : Nat}
    (hi : cs[i]? = some c) : (b.run (listening cs)).subscription? (b.nextId + i) =
      some { id := b.nextId + i, scope := .channel c } := by
  induction cs generalizing b i with
  | nil => cases hi
  | cons first cs ih =>
    change ((b.subscribe (.channel first)).run (listening cs)).subscription? _ = _
    cases i with
    | zero =>
      obtain rfl : first = c := Option.some.inj hi
      rw [subscription?_listening_of_lt cs (Nat.lt_succ_self b.nextId)]
      exact h.subscription?_subscribe _
    | succ i =>
      have hnext : (b.subscribe (.channel first)).nextId + i = b.nextId + (i + 1) := by
        rw [Nat.add_comm i 1, ← Nat.add_assoc]
        rfl
      rw [← hnext]
      exact ih (h.subscribe _) hi

theorem published_listening (cs : List String) : published (listening cs : List (Act α)) = [] :=
  List.filterMap_eq_nil_iff.2 fun a ha => by
    obtain ⟨c, -, rfl⟩ := List.mem_map.1 ha
    rfl

/-! ## In the order of publication -/

theorem no_dispatch_listening (cs : List String) : .dispatch ∉ (listening cs : List (Act α)) := by
  rw [listening, List.mem_map]
  rintro ⟨c, -, hc⟩
  cases hc

/-- Whatever of a channel has not been handed out is queued once somebody listens there. -/
theorem on_queue_listening {before : List (Act α)} {cs : List String} (hc : c ∈ cs)
    (hhanded : Event.on c (handed {} before) = []) :
    Event.on c (run {} (before ++ listening cs) : Bus α).backend.queue =
      Event.on c (published before) := by
  have hagrees : (run {} (before ++ listening cs) : Bus α).Agrees := agrees_run _
  obtain ⟨i, hi⟩ := List.getElem?_of_mem hc
  have hlistens := (agrees_run before).subscription?_listening hi
  rw [← run_append] at hlistens
  have hhears := hagrees.hears_of_mem (mem_roster_of_mem (subscription?_eq_some hlistens).1)
    (beq_self_eq_true c)
  -- somebody hears the channel now, so nothing of it is held back
  have hmissed : Event.on c (run {} (before ++ listening cs) : Bus α).backend.missed = [] := by
    refine List.filter_eq_nil_iff.2 fun e he hchannel => ?_
    have hheld := hagrees.held e he
    rw [eq_of_beq hchannel, hhears] at hheld
    cases hheld
  have hall := published_eq (before ++ listening cs) c
  rw [published_append, published_listening, List.append_nil, handed_append,
    handed_of_no_dispatch (no_dispatch_listening cs), List.append_nil, hhanded, backlog,
    Event.on_append, hmissed] at hall
  simpa using hall.symm

/-- What waits for the first listener, channel by channel in the order in which it listens. -/
theorem waiting_listening {before : List (Act α)} {cs : List String} (hcs : cs.Nodup)
    (hbefore : ∀ a ∈ before, ∀ c ∈ cs, a.Leaves c) :
    ((run {} (before ++ listening cs) : Bus α).backend.queue).filter (cs.contains ·.channel) =
      cs.flatMap fun c => Event.on c (published before) := by
  have hunattended : ∀ c ∈ cs, (run {} before : Bus α).Unattended c ∧
      Event.on c (run {} before : Bus α).backend.missed = Event.on c (published before) :=
    fun c hc => missed_of_unattended fun a ha => hbefore a ha c hc
  have hold : ((run {} before : Bus α).backend.queue).filter (cs.contains ·.channel) = [] := by
    refine List.filter_eq_nil_iff.2 fun e he hc => ?_
    have hqueue := (hunattended e.channel (List.contains_iff_mem.1 hc)).1.queue
    exact List.filter_eq_nil_iff.1 hqueue e he (beq_self_eq_true _)
  rw [run_append, (agrees_run before).queue_listen hcs fun c hc => (hunattended c hc).1,
    List.filter_append, hold, List.nil_append, List.flatMap_congr fun c hc => (hunattended c hc).2]
  refine List.filter_eq_self.2 fun e he => ?_
  obtain ⟨c, hc, hmem⟩ := List.mem_flatMap.1 he
  rw [eq_of_beq (List.mem_filter.1 hmem).2]
  exact List.contains_iff_mem.2 hc

end Bus

namespace Event

variable {α : Type} {c : String} {shown shown' firsts es es' : List (Event α)} {e : Event α}

/-- Among `es` the event comes next after `firsts` on its own channel, and whatever comes before it
on the channel `c` is in `shown`, from the start. -/
def Behind (c : String) (shown firsts : List (Event α)) (e : Event α) (es : List (Event α)) :
    Prop :=
  ∃ xs ys, es = xs ++ e :: ys ∧ on e.channel xs = firsts ∧ on c xs <+: shown

theorem Behind.mono (h : Behind c shown firsts e es) (hs : shown <+: shown') (he : es <+: es') :
    Behind c shown' firsts e es' := by
  obtain ⟨xs, ys, rfl, hown, hc⟩ := h
  obtain ⟨zs, rfl⟩ := he
  exact ⟨xs, ys ++ zs, by simp, hown, hc.trans hs⟩

theorem split_on {ys : List (Event α)} (h : on e.channel es = firsts ++ e :: ys) :
    ∃ xs zs, es = xs ++ e :: zs ∧ on e.channel xs = firsts := by
  obtain ⟨front, rest, rfl, hfront, hrest⟩ := List.filter_eq_append_iff.1 h
  obtain ⟨between, zs, rfl, hbetween, -, -⟩ := List.filter_eq_cons_iff.1 hrest
  refine ⟨front ++ between, zs, by simp, ?_⟩
  have hnone : on e.channel between = [] := List.filter_eq_nil_iff.2 hbetween
  rw [on_append, hnone, List.append_nil]
  exact hfront

theorem behind_of_on {ys : List (Event α)} (h : on e.channel es = firsts ++ e :: ys)
    (hc : on c es <+: shown) : Behind c shown firsts e es := by
  obtain ⟨xs, zs, rfl, hxs⟩ := split_on h
  refine ⟨xs, zs, rfl, hxs, List.IsPrefix.trans ?_ hc⟩
  rw [on_append]
  exact List.prefix_append _ _

theorem on_filter_contains {cs : List String} (hc : c ∈ cs) (es : List (Event α)) :
    on c (es.filter (cs.contains ·.channel)) = on c es := by
  rw [on, List.filter_filter]
  refine List.filter_congr fun e _ => ?_
  cases he : e.channel == c with
  | false => rfl
  | true => rw [eq_of_beq he, List.contains_iff_mem.2 hc]; rfl

theorem on_cons_self (e : Event α) (es : List (Event α)) :
    on e.channel (e :: es) = e :: on e.channel es :=
  List.filter_cons_of_pos (beq_self_eq_true e.channel)

theorem on_on (c d : String) (es : List (Event α)) :
    on d (on c es) = if c = d then on c es else [] := by
  split
  · next h =>
    subst h
    exact List.filter_eq_self.2 fun e he => (List.mem_filter.1 he).2
  · next h =>
    refine List.filter_eq_nil_iff.2 fun e he hd => h ?_
    rw [← eq_of_beq hd, ← eq_of_beq (List.mem_filter.1 he).2]

/-- Sorted by channels, events are on each channel in the order in which they were. -/
theorem on_flatMap_on {cs : List String} (hcs : cs.Nodup) {d : String} (hd : d ∈ cs)
    (es : List (Event α)) : on d (cs.flatMap fun c => on c es) = on d es := by
  induction cs with
  | nil => exact absurd hd List.not_mem_nil
  | cons c cs ih =>
    obtain ⟨hc, hcs⟩ := List.nodup_cons.1 hcs
    rw [List.flatMap_cons, on_append, on_on]
    by_cases hcd : c = d
    · have hnone : on d (cs.flatMap fun c => on c es) = [] := by
        refine List.filter_eq_nil_iff.2 fun e he hd' => ?_
        obtain ⟨x, hx, hmem⟩ := List.mem_flatMap.1 he
        have hxd : x = d := (eq_of_beq (List.mem_filter.1 hmem).2).symm.trans (eq_of_beq hd')
        exact hc (hcd ▸ hxd ▸ hx)
      rw [if_pos hcd, hnone, List.append_nil, hcd]
    · rw [if_neg hcd, List.nil_append, ih hcs ((List.mem_cons.1 hd).resolve_left (Ne.symm hcd))]

/-- Either the event had waited when the listener came, or what comes before it in the order of
publication comes before it as it is handed out. -/
theorem behind_or_waiting {waiting old later xs ys : List (Event α)} {cs : List String}
    (hsame : ∀ d ∈ cs, on d waiting = on d old) (hc : c ∈ cs) (he : e.channel ∈ cs)
    (hsplit : waiting ++ later.filter (cs.contains ·.channel) = xs ++ e :: ys)
    (hown : on e.channel xs = firsts) (hshown : on c xs <+: shown) :
    Behind c shown firsts e (old ++ later) ∨ ∃ rest, waiting = xs ++ e :: rest := by
  -- an event that was published later comes behind everything that had waited, in both orders
  have hlater : ∀ front, xs = waiting ++ front →
      later.filter (cs.contains ·.channel) = front ++ e :: ys →
      Behind c shown firsts e (old ++ later) := by
    rintro front rfl hfront
    obtain ⟨init, rest, rfl, rfl, hrest⟩ := List.filter_eq_append_iff.1 hfront
    obtain ⟨between, zs, rfl, hbetween, -, -⟩ := List.filter_eq_cons_iff.1 hrest
    have hpublished : ∀ d ∈ cs, on d (old ++ (init ++ between)) =
        on d (waiting ++ init.filter (cs.contains ·.channel)) := fun d hd => by
      have hnone : on d between = [] := List.filter_eq_nil_iff.2 fun x hx hxd =>
        hbetween x hx (List.contains_iff_mem.2 (eq_of_beq hxd ▸ hd))
      rw [on_append, on_append, on_append, hnone, List.append_nil, hsame d hd,
        on_filter_contains hd]
    refine ⟨old ++ (init ++ between), zs, by simp, ?_, ?_⟩
    · rw [hpublished _ he, hown]
    · rw [hpublished c hc]
      exact hshown
  rcases List.append_eq_append_iff.1 hsplit with ⟨front, hxs, hfront⟩ | ⟨rest, hxs, hrest⟩
  · exact .inl (hlater front hxs hfront)
  · cases rest with
    | nil => exact .inl (hlater [] (by simpa using hxs.symm) (by simpa using hrest.symm))
    | cons x rest =>
      obtain ⟨rfl, -⟩ := List.cons.inj hrest
      exact .inr ⟨rest, hxs⟩

end Event

namespace Bus

variable {α : Type}

variable {before : List (Act α)} {c : String} {cs : List String} {shown firsts es : List (Event α)}
  {e : Event α}

open Event in
/-- **The order of publication**: if the first listener of several channels has been shown what
comes before the event on the channel that it listens to first, it has been shown what was published
before the event there. -/
theorem behind_published (hcs : (c :: cs).Nodup) (hbefore : ∀ a ∈ before, ∀ d ∈ c :: cs, a.Leaves d)
    (he : e.channel ∈ cs) (h : Behind c shown firsts e
      (((run {} (before ++ listening (c :: cs)) : Bus α).backend.queue ++ es).filter
        ((c :: cs).contains ·.channel))) :
    Behind c shown firsts e (published before ++ es) := by
  have hne : e.channel ≠ c := fun heq => (List.nodup_cons.1 hcs).1 (heq ▸ he)
  have hold : ∀ d ∈ c :: cs, on d ((c :: cs).flatMap fun d => on d (published before)) =
      on d (published before) := fun d hd => on_flatMap_on hcs hd _
  obtain ⟨xs, ys, hsplit, hown, hshown⟩ := h
  rw [List.filter_append, waiting_listening hcs hbefore] at hsplit
  rcases behind_or_waiting hold List.mem_cons_self (List.mem_cons_of_mem _ he) hsplit hown hshown
    with hbehind | ⟨rest, hwaiting⟩
  · exact hbehind
  · -- all that was held back on the first channel comes before the event
    have howned : on e.channel (published before) = firsts ++ e :: on e.channel rest := by
      rw [← hold _ (List.mem_cons_of_mem _ he), hwaiting, on_append, hown, on_cons_self]
    have hfront : on c (published before) <+: xs := by
      rw [List.flatMap_cons] at hwaiting
      rcases List.append_eq_append_iff.1 hwaiting with ⟨as, has, -⟩ | ⟨bs, hbs, hcons⟩
      · exact ⟨as, has.symm⟩
      · cases bs with
        | nil => exact ⟨[], by simpa using hbs⟩
        | cons y bs =>
          obtain ⟨rfl, -⟩ := List.cons.inj hcons
          have hmem : e ∈ on c (published before) :=
            hbs ▸ List.mem_append_right _ List.mem_cons_self
          exact absurd (eq_of_beq (List.mem_filter.1 hmem).2) hne
    have hall : on c (published before) <+: shown := by
      have hown' : on c (on c (published before)) = on c (published before) := by
        rw [on_on, if_pos rfl]
      have hfilter := hfront.filter (·.channel == c)
      rw [show List.filter _ (on c (published before)) = _ from hown'] at hfilter
      exact hfilter.trans hshown
    exact (behind_of_on howned hall).mono List.prefix_rfl (List.prefix_append _ _)

open Event in
/-- The same for any listener to the channels, if nothing had been handed out when it came and
nothing had been published on the channel of the event. -/
theorem behind_published_of_none (hc : c ∈ cs) (he : e.channel ∈ cs) (hbefore : .dispatch ∉ before)
    (hnone : on e.channel (published before) = []) (h : Behind c shown firsts e
      (((run {} (before ++ listening cs) : Bus α).backend.queue ++ es).filter
        (cs.contains ·.channel))) :
    Behind c shown firsts e (published before ++ es) := by
  have hwaiting : ∀ d ∈ cs, on d ((run {} (before ++ listening cs) : Bus α).backend.queue.filter
      (cs.contains ·.channel)) = on d (published before) := fun d hd => by
    rw [on_filter_contains hd, on_queue_listening hd (by rw [handed_of_no_dispatch hbefore]; rfl)]
  obtain ⟨xs, ys, hsplit, hown, hshown⟩ := h
  rw [List.filter_append] at hsplit
  rcases behind_or_waiting hwaiting hc he hsplit hown hshown with hbehind | ⟨rest, hrest⟩
  · exact hbehind
  · have hmem : e ∈ on e.channel (published before) := by
      rw [← hwaiting _ he, hrest, on_append, on_cons_self]
      exact List.mem_append_right _ List.mem_cons_self
    rw [hnone] at hmem
    exact absurd hmem List.not_mem_nil

end Bus
end Parley
