import Parley.Proofs.Bus.Mailbox
import Parley.Proofs.Session.Visit

/-!
# The dialogue of a session

A `Course` of a session is the list of the turns that its task has taken (`Visit`), while between
them anything happens that others can do. `Course.Sound` is what holds of every course of a session
with the built-in commands: which answers were prompts, that they match the requests, and what an
exit word ends. The steps that a world takes carry a course on, whoever takes them
(`Course.step_own`, `Course.step_other`).
-/

set_option autoImplicit false

namespace Parley

/-- The turns that the task of a session has taken, where it stands, and the world. Between its
turns the bus goes through any acts, and everything but the commands may change. -/
inductive Course : List Visit → Stage → World → Prop
  | start {w : World} (hb : ∃ acts, w.bus = Bus.run {} acts)
    (hr : w.shared.registry = Registry.ofCommands Command.builtins) :
    Course [] (.unstarted .session) w
  | turn {log : List Visit} {stage : Stage} {w : World} (h : Course log stage w) :
    Course (log ++ [⟨stage, w⟩]) (stage.turn w).2 (stage.turn w).1
  | others {log : List Visit} {stage : Stage} {w w' : World} (h : Course log stage w)
    (hw : Calls w w') : Course log stage w'

theorem Dialogue.prompts_append {xs : List Answer} (h : ∀ a ∈ xs, a.isExit = false)
    (ys : List Answer) : prompts (xs ++ ys) = prompts xs ++ prompts ys := by
  induction xs with
  | nil => rfl
  | cons a xs ih =>
    rw [List.cons_append, prompts, prompts, h a List.mem_cons_self,
      ih fun x hx => h x (List.mem_cons_of_mem _ hx)]
    simp

/-! ## What holds of a course -/

/-- How many answers there are, and which request the next one is for. -/
def Stage.Linked (b : Bus Message) (requests : List Message) (answers : List Answer) : Stage → Prop
  | awaitingLine reply use => ∃ earlier last, requests = earlier ++ [last] ∧
    earlier.length = answers.length ∧ b.Granted reply (.channel last.replyChannel) ∧
    last.extra.get? "plain" = some (.bool !use.isOwn)
  | stage => answers.length = requests.length ∨
    stage.isClosing = true ∧ answers.length + 1 = requests.length

namespace Course

def requests (log : List Visit) : List Message := log.filterMap (·.request?)

def answers (log : List Visit) : List Answer := log.filterMap (·.answer?)

def prompts (log : List Visit) : List String := log.filterMap (·.prompt?)

/-- What holds of every course (module doc). -/
structure Sound (log : List Visit) (stage : Stage) (w : World) : Prop where
  bus : ∃ acts, w.bus = Bus.run {} acts
  registry : w.shared.registry = Registry.ofCommands Command.builtins
  inSession : stage.InSession
  heard : prompts log ++ stage.pending?.toList = Dialogue.prompts (answers log)
  ended : (∃ a ∈ answers log, a.isExit = true) → stage.isClosing = true
  linked : stage.Linked w.bus (requests log) (answers log)
  pairs : ∀ p ∈ (requests log).zip (answers log), p.2.RepliesTo p.1
  last : ∀ before v, log = before ++ [v] → v.Follows stage

/-! ## One turn -/

theorem filterMap_concat {β γ : Type} (f : β → Option γ) (xs : List β) (x : β) :
    (xs ++ [x]).filterMap f = xs.filterMap f ++ (f x).toList := by
  rw [List.filterMap_append]
  cases hx : f x <;> simp [hx]

theorem answer?_of_closing {stage : Stage} (h : stage.isClosing = true) (w : World) :
    Visit.answer? ⟨stage, w⟩ = none := by
  cases stage <;> first | rfl | cases h

theorem linked_count {b : Bus Message} {rs : List Message} {as : List Answer} {stage : Stage}
    (hs : ∀ reply use, stage ≠ .awaitingLine reply use) (h : stage.Linked b rs as) :
    as.length = rs.length ∨ stage.isClosing = true ∧ as.length + 1 = rs.length := by
  cases stage <;> first | exact h | exact absurd rfl (hs _ _)

theorem linked_of_eq {b : Bus Message} {rs : List Message} {as : List Answer} {stage : Stage}
    (hs : ∀ reply use, stage ≠ .awaitingLine reply use) (h : as.length = rs.length) :
    stage.Linked b rs as := by
  cases stage <;> first | exact .inl h | exact absurd rfl (hs _ _)

theorem linked_of_closing {b : Bus Message} {rs : List Message} {as : List Answer} {stage : Stage}
    (hs : stage.isClosing = true) (h : as.length = rs.length ∨ as.length + 1 = rs.length) :
    stage.Linked b rs as := by
  cases stage <;> first | exact h.imp_right fun h => ⟨rfl, h⟩ | cases hs

theorem zip_concat_left {β γ : Type} {xs : List β} {ys : List γ} (h : xs.length = ys.length)
    (x : β) :
    (xs ++ [x]).zip ys = xs.zip ys := by
  conv_lhs => rw [← List.append_nil ys]
  rw [List.zip_append h, List.zip_nil_right, List.append_nil]

theorem mem_zip_concat {β γ : Type} {xs : List β} {ys : List γ} (h : xs.length = ys.length) {x : β}
    {y : γ} {p : β × γ} (hp : p ∈ (xs ++ [x]).zip (ys ++ [y])) : p ∈ xs.zip ys ∨ p = (x, y) := by
  rw [List.zip_append h] at hp
  simpa using hp

theorem requests_concat (log : List Visit) (v : Visit) :
    requests (log ++ [v]) = requests log ++ v.request?.toList := filterMap_concat _ log v

theorem answers_concat (log : List Visit) (v : Visit) :
    answers (log ++ [v]) = answers log ++ v.answer?.toList := filterMap_concat _ log v

/-- After a turn that neither asks for a line nor waits for one. -/
theorem Sound.linked_other {log : List Visit} {stage : Stage} {w : World} (h : Sound log stage w)
    (hasking : ∀ plain use, stage ≠ .asking plain use)
    (hawaiting : ∀ reply use, stage ≠ .awaitingLine reply use) :
    (stage.turn w).2.Linked (stage.turn w).1.bus (requests log) (answers log) := by
  have hnext : ∀ reply use, (stage.turn w).2 ≠ .awaitingLine reply use := by
    intro reply use hs
    have hfollows := Visit.follows_turn h.inSession h.registry
    rw [hs] at hfollows
    cases hfollows with
    | closing hn ha => cases hn
    | asked hv => exact hasking _ _ hv
    | waiting hv ha => exact hawaiting _ _ hv
  rcases linked_count hawaiting h.linked with hl | ⟨hc, hl⟩
  · exact linked_of_eq hnext hl
  · exact linked_of_closing (Stage.isClosing_turn hc w) (.inr hl)

/-- The turn that asks for a line. -/
theorem Sound.linked_asking {log : List Visit} {plain : Bool} {use : LineUse} {w : World}
    (h : Sound log (.asking plain use) w) :
    ((Stage.asking plain use).turn w).2.Linked ((Stage.asking plain use).turn w).1.bus
      (requests log ++ [w.stamp (.lineRequest plain)]) (answers log) := by
  obtain ⟨acts, hacts⟩ := h.bus
  have hagrees : w.bus.Agrees := hacts ▸ Bus.agrees_run acts
  have hcount : (answers log).length = (requests log).length := by
    rcases h.linked with hl | ⟨hc, -⟩
    · exact hl
    · cases hc
  let asked := w.send (.lineRequest plain)
  have hasked : asked.bus.Agrees := by
    obtain ⟨acts', hacts'⟩ := (calls_send w (.lineRequest plain)).bus
    exact hacts' ▸ hagrees.run acts'
  refine ⟨requests log, w.stamp (.lineRequest plain), rfl, hcount.symm, ?_, ?_⟩
  · have hbus : ((Stage.asking plain use).turn w).1.bus =
        asked.bus.subscribe (.channel (w.stamp (.lineRequest plain)).replyChannel) :=
      (Schedule.roused_nudge _).bus
    rw [hbus]
    exact hasked.granted_subscribe _
  · rw [h.inSession.2]
    rfl

/-- The turn that looks for an answer. -/
theorem Sound.linked_awaiting {log : List Visit} {reply : SubscriptionId} {use : LineUse}
    {w : World} (h : Sound log (.awaitingLine reply use) w) {v : Visit}
    (hv : v = ⟨.awaitingLine reply use, w⟩) :
    ((Stage.awaitingLine reply use).turn w).2.Linked ((Stage.awaitingLine reply use).turn w).1.bus
      (requests log) (answers log ++ v.answer?.toList) ∧
    ∀ p ∈ (requests log).zip (answers log ++ v.answer?.toList), p.2.RepliesTo p.1 := by
  subst hv
  obtain ⟨earlier, last, hsplit, hcount, hgranted, hplain⟩ := h.linked
  have hfollows := Visit.follows_turn h.inSession h.registry
  have hpairs := h.pairs
  cases ha : Visit.answer? ⟨.awaitingLine reply use, w⟩ with
  | none =>
    refine ⟨?_, by simpa using hpairs⟩
    rw [Option.toList_none, List.append_nil]
    cases hpeek : w.peek reply with
    | event e => simp [Visit.answer?, hpeek] at ha
    | waiting =>
      simp only [Stage.turn, hpeek]
      exact h.linked
    | closed =>
      simp only [Stage.turn, hpeek]
      exact linked_of_closing (Visit.isClosing_useLine h.inSession rfl _)
        (.inr (by rw [hsplit, List.length_append, hcount]; rfl))
  | some a =>
    rw [Option.toList_some]
    have hevent : w.peek reply = .event a.event ∧ a.own = use.isOwn := by
      simp only [Visit.answer?] at ha
      split at ha
      · next hpeek =>
        cases ha
        exact ⟨hpeek, rfl⟩
      · cases ha
    have hreplies : a.RepliesTo last := by
      obtain ⟨acts, hacts⟩ := h.bus
      have hcovers := Bus.covers_of_read (hacts ▸ Bus.addressed_run acts) hgranted hevent.1
      exact ⟨(eq_of_beq hcovers).symm, hevent.2 ▸ hplain⟩
    refine ⟨linked_of_eq (fun id use' hs => ?_) ?_, fun p hp => ?_⟩
    · rw [hs] at hfollows
      cases hfollows with
      | closing hn _ => cases hn
      | asked hv => cases hv
      | waiting _ hnone => cases ha.symm.trans hnone
    · rw [hsplit, List.length_append, List.length_append, hcount]
      rfl
    · rw [hsplit, zip_concat_left hcount] at hpairs
      rw [hsplit] at hp
      rcases mem_zip_concat hcount hp with hp | rfl
      · exact hpairs p hp
      · exact hreplies

/-- After every turn the answers match the requests. -/
theorem Sound.linked_turn {log : List Visit} {stage : Stage} {w : World} (h : Sound log stage w)
    {v : Visit} (hv : v = ⟨stage, w⟩) :
    (stage.turn w).2.Linked (stage.turn w).1.bus (requests (log ++ [v])) (answers (log ++ [v])) ∧
      ∀ p ∈ (requests (log ++ [v])).zip (answers (log ++ [v])), p.2.RepliesTo p.1 := by
  rw [requests_concat, answers_concat]
  cases stage with
  | asking plain use =>
    have hcount := (linked_count (fun _ _ hs => by cases hs) h.linked).resolve_right
      fun ⟨hc, _⟩ => by cases hc
    have hrequest : v.request? = some (w.stamp (.lineRequest plain)) := hv ▸ rfl
    have hanswer : v.answer? = none := hv ▸ rfl
    rw [hrequest, hanswer, Option.toList_some, Option.toList_none, List.append_nil,
      zip_concat_left hcount.symm]
    exact ⟨h.linked_asking, h.pairs⟩
  | awaitingLine reply use =>
    have hrequest : v.request? = none := hv ▸ rfl
    rw [hrequest, Option.toList_none, List.append_nil]
    exact h.linked_awaiting hv
  | _ =>
    have hrequest : v.request? = none := hv ▸ rfl
    have hanswer : v.answer? = none := hv ▸ rfl
    rw [hrequest, hanswer, Option.toList_none, List.append_nil, Option.toList_none, List.append_nil]
    exact ⟨h.linked_other nofun nofun, h.pairs⟩

theorem Sound.turn {log : List Visit} {stage : Stage} {w : World} (h : Sound log stage w) :
    Sound (log ++ [⟨stage, w⟩]) (stage.turn w).2 (stage.turn w).1 := by
  have hcalls := Stage.calls_turn stage w
  have hfollows := Visit.follows_turn h.inSession h.registry
  have hanswers := answers_concat log ⟨stage, w⟩
  obtain ⟨hlinked, hpairs⟩ := h.linked_turn rfl
  refine ⟨?_, hcalls.registry.trans h.registry, hfollows.inSession h.inSession, ?_, ?_, hlinked,
    hpairs, ?_⟩
  · obtain ⟨acts, hacts⟩ := h.bus
    obtain ⟨acts', hacts'⟩ := hcalls.bus
    exact ⟨acts ++ acts', by rw [hacts', hacts, Bus.run_append]⟩
  · rw [Course.prompts, filterMap_concat, hanswers, hfollows.pending]
    refine (congrArg (· ++ _) h.heard).trans ?_
    by_cases hexit : ∃ a ∈ answers log, a.isExit = true
    · rw [answer?_of_closing (h.ended hexit), Option.toList_none, List.append_nil]
      exact List.append_nil _
    · refine (Dialogue.prompts_append (fun a ha => ?_) _).symm
      rw [← Bool.not_eq_true]
      exact fun he => hexit ⟨a, ha, he⟩
  · rintro ⟨a, ha, he⟩
    rw [hanswers] at ha
    rcases List.mem_append.1 ha with ha | ha
    · exact Stage.isClosing_turn (h.ended ⟨a, ha, he⟩) w
    · exact hfollows.isClosing_of_exit (Option.mem_toList.1 ha) he
  · intro before v hv
    obtain rfl := List.singleton_inj.1 (List.append_inj' hv rfl).2
    exact hfollows

theorem Sound.others {log : List Visit} {stage : Stage} {w w' : World} (h : Sound log stage w)
    (hw : Calls w w') : Sound log stage w' := by
  obtain ⟨acts, hacts⟩ := h.bus
  obtain ⟨acts', hacts'⟩ := hw.bus
  refine ⟨⟨acts ++ acts', by rw [hacts', hacts, Bus.run_append]⟩, hw.registry.trans h.registry,
    h.inSession, h.heard, h.ended, ?_, h.pairs, h.last⟩
  have hlinked := h.linked
  cases stage with
  | awaitingLine reply use =>
    obtain ⟨earlier, last, hsplit, hcount, hgranted, hplain⟩ := hlinked
    have hagrees : w.bus.Agrees := hacts ▸ Bus.agrees_run acts
    exact ⟨earlier, last, hsplit, hcount, hacts' ▸ hagrees.granted_run hgranted acts', hplain⟩
  | _ => exact hlinked

/-! ## Whole courses -/

theorem sound {log : List Visit} {stage : Stage} {w : World} (h : Course log stage w) :
    Sound log stage w := by
  induction h with
  | start hb hr =>
    exact ⟨hb, hr, rfl, rfl, fun ⟨_, ha, _⟩ => absurd ha List.not_mem_nil, .inl rfl,
      fun _ hp => absurd hp List.not_mem_nil, fun before v hv => by simp at hv⟩
  | turn h ih => exact ih.turn
  | others h hw ih => exact ih.others hw

/-- A place in a log with one more visit is the last one or a place in the log. -/
theorem split_concat {β : Type} {log before after : List β} {u v : β}
    (h : log ++ [u] = before ++ v :: after) :
    (before = log ∧ v = u ∧ after = []) ∨
      ∃ init, after = init ++ [u] ∧ log = before ++ v :: init := by
  rcases List.eq_nil_or_concat after with rfl | ⟨init, x, rfl⟩
  · obtain ⟨hinit, hlast⟩ := List.append_inj' h rfl
    exact .inl ⟨hinit.symm, (List.singleton_inj.1 hlast).symm, rfl⟩
  · have hsplit : log ++ [u] = (before ++ v :: init) ++ [x] := by simpa using h
    obtain ⟨hinit, hlast⟩ := List.append_inj' hsplit rfl
    obtain rfl := List.singleton_inj.1 hlast
    exact .inr ⟨init, List.concat_eq_append, hinit⟩

/-- Every visit is followed by what may come next after it. -/
theorem follows_of_split {log : List Visit} {stage : Stage} {w : World} (h : Course log stage w)
    {before after : List Visit} {v v' : Visit} (hlog : log = before ++ v :: v' :: after) :
    v.Follows v'.stage := by
  induction h generalizing after with
  | start hb hr => simp at hlog
  | @turn log stage w h ih =>
    rcases split_concat (hlog.trans (List.append_cons before v _)) with
      ⟨hinit, rfl, -⟩ | ⟨init, -, hinit⟩
    · exact h.sound.last before v hinit.symm
    · exact ih (hinit.trans (List.append_cons before v _).symm)
  | others h hw ih => exact ih hlog

/-- After an exit word the session only closes. -/
theorem closing_after_exit {log : List Visit} {stage : Stage} {w : World} (h : Course log stage w)
    {before after : List Visit} {v : Visit} (hlog : log = before ++ v :: after) {a : Answer}
    (ha : v.answer? = some a) (he : a.isExit = true) :
    stage.isClosing = true ∧ ∀ u ∈ after, u.stage.isClosing = true := by
  refine ⟨h.sound.ended ⟨a, ?_, he⟩, ?_⟩
  · rw [hlog]
    exact List.mem_filterMap.2 ⟨v, List.mem_append_right _ List.mem_cons_self, ha⟩
  · induction h generalizing after with
    | start hb hr => simp at hlog
    | @turn log stage w h ih =>
      rcases split_concat hlog with ⟨-, -, rfl⟩ | ⟨init, rfl, hinit⟩
      · exact fun u hu => absurd hu List.not_mem_nil
      · intro u hu
        rcases List.mem_append.1 hu with hu | hu
        · exact ih hinit u hu
        · rw [List.mem_singleton.1 hu]
          refine h.sound.ended ⟨a, ?_, he⟩
          rw [hinit]
          exact List.mem_filterMap.2 ⟨v, List.mem_append_right _ List.mem_cons_self, ha⟩
    | others h hw ih => exact ih hlog

/-- At most one request is unanswered. -/
theorem counts {log : List Visit} {stage : Stage} {w : World} (h : Course log stage w) :
    (answers log).length ≤ (requests log).length ∧
      (requests log).length ≤ (answers log).length + 1 := by
  have hlinked := h.sound.linked
  cases stage with
  | awaitingLine reply use =>
    obtain ⟨earlier, last, hsplit, hcount, -⟩ := hlinked
    rw [hsplit, List.length_append, hcount]
    exact ⟨Nat.le_succ _, Nat.le_refl _⟩
  | _ =>
    rcases hlinked with hl | ⟨-, hl⟩ <;> omega

/-! ## Courses of a world -/

/-- A step of somebody else. -/
theorem step_other {log : List Visit} {stage : Stage} {w : World} (h : Course log stage w) :
    Course log stage (w.step program) := h.others (calls_step w)

/-- A step of the session's own task is a turn. -/
theorem step_own {log : List Visit} {stage : Stage} {w : World} (h : Course log stage w)
    {t : TaskId} {rest : List TaskId} (hready : w.ready = t :: rest)
    (ht : w.task? t = some { id := t, role := .own (.session stage) }) :
    Course (log ++ [⟨stage, { w with ready := rest }⟩]) (stage.turn { w with ready := rest }).2
      (w.step program) := by
  have hpop : Course log stage { w with ready := rest } := h.others (.of_same rfl rfl)
  rw [Schedule.step_own hready ht]
  exact hpop.turn.others (calls_settleTurn t (sessionTurn (stage.turn { w with ready := rest })))

/-- Between two turns the bus may go through any acts. -/
theorem acts {log : List Visit} {stage : Stage} {w : World} (h : Course log stage w)
    (acts : List (Bus.Act Message)) : Course log stage { w with bus := w.bus.run acts } :=
  h.others ⟨⟨acts, rfl⟩, rfl⟩

end Course

end Parley
