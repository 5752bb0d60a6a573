import Parley.Proofs.Message.ReplyChannel
import Parley.Proofs.Session.Sending
import Parley.Proofs.Terminal.Watch

/-!
# One line after the other

`Terminal.serve` says what is sent for requests and the lines that are entered for them, without
tasks, mailboxes and completions: each line goes to the first request that is open, and answers it or
asks for completions, as it does at the terminal (`useFor_eq`). Requests and lines may be taken in
parts (`serve_append_requests`, `serve_append_lines`), and the requests that are no longer open have
been answered, one by one (`exists_answered`).

A turn of a terminal, as long as the user neither presses the key nor ends the input, takes at most
one request and uses at most one line, and does with them what `serve` says (`serves_turn`). It waits
only if nothing is left to be served (`rests_turn`).
-/

set_option autoImplicit false

namespace Parley

namespace Terminal

/-! ## Requests and lines -/

/-- What a line does for the first open request: what is sent, and the request if it stays open. A
line answers the request, without the tab at its end if the request takes no commands. If it does, a
line that ends in a tab asks for completions instead. -/
def useFor (request : Message) (line : String) : Outgoing × List Message :=
  let answered (text : String) : Outgoing :=
    { channel := request.channel ++ ":" ++ request.id.render
      source := .client
      data := .text text
      extra := [] }
  if line.toList.getLast? = some '\t' then
    let part := String.ofList line.toList.dropLast
    match request.extra.get? "plain" with
    | some (.bool true) => (answered part, [])
    | _ =>
      ({ channel := "completion_request", source := .client, data := .text part, extra := [] },
        [request])
  else (answered line, [])

/-- It is what the terminal does with the line. -/
theorem useFor_eq (request : Message) (line : String) : useFor request line =
    match isPlain request, beforeTab? line with
    | false, some part => (completionRequest part, [request])
    | _, part? => (answer request (part?.getD line), []) := by
  unfold useFor beforeTab?
  by_cases htab : line.toList.getLast? = some '\t'
  · simp only [if_pos htab]
    unfold isPlain
    split
    · next hplain =>
      rw [hplain]
      rfl
    · next hplain =>
      cases hget : request.extra.get? "plain" with
      | none => rfl
      | some v =>
        cases v with
        | bool b =>
          cases b with
          | false => rfl
          | true => exact absurd hget hplain
        | _ => rfl
  · simp only [if_neg htab]
    cases isPlain request <;> rfl

/-- What is sent for requests and the lines entered for them, and the requests that stay open; `none`
if a line comes while no request is open. -/
def serve : List Message → List String → Option (List Outgoing × List Message)
  | requests, [] => some ([], requests)
  | [], _ :: _ => none
  | request :: requests, line :: lines =>
    (serve ((useFor request line).2 ++ requests) lines).map fun (os, left) =>
      ((useFor request line).1 :: os, left)

theorem serve_one (request : Message) (line : String) :
    serve [request] [line] = some ([(useFor request line).1], (useFor request line).2) := by
  rw [serve, List.append_nil, serve]
  rfl

/-- Requests that come later are taken later. -/
theorem serve_append_requests {requests : List Message} {lines : List String} {os : List Outgoing}
    {left : List Message} (h : serve requests lines = some (os, left)) (more : List Message) :
    serve (requests ++ more) lines = some (os, left ++ more) := by
  induction lines generalizing requests os left with
  | nil =>
    rw [serve] at h ⊢
    cases h
    rfl
  | cons line lines ih =>
    cases requests with
    | nil => cases h
    | cons request requests =>
      rw [serve] at h
      obtain ⟨⟨os', left'⟩, hrest, heq⟩ := Option.map_eq_some_iff.1 h
      cases heq
      rw [List.cons_append, serve, ← List.append_assoc, ih hrest]
      rfl

/-- Lines that come later are used for what is left open. -/
theorem serve_append_lines {requests left left' : List Message} {lines more : List String}
    {os os' : List Outgoing} (h : serve requests lines = some (os, left))
    (h' : serve left more = some (os', left')) :
    serve requests (lines ++ more) = some (os ++ os', left') := by
  induction lines generalizing requests os with
  | nil =>
    rw [serve] at h
    cases h
    exact h'
  | cons line lines ih =>
    cases requests with
    | nil => cases h
    | cons request requests =>
      rw [serve] at h
      obtain ⟨⟨os₁, left₁⟩, hrest, heq⟩ := Option.map_eq_some_iff.1 h
      cases heq
      rw [List.cons_append, serve, ih hrest]
      rfl

/-- What is sent is a request for completions, and the request stays open, or it is the answer, and
it does not. -/
theorem useFor_cases (request : Message) (line : String) :
    ((useFor request line).1.channel = Channel.completionRequest ∧
        (useFor request line).2 = [request]) ∨
      (useFor request line).1.channel = request.replyChannel ∧ (useFor request line).2 = [] := by
  rw [useFor_eq]
  split
  · exact .inl ⟨rfl, rfl⟩
  · exact .inr ⟨rfl, rfl⟩

theorem replyChannel_ne_completionRequest (request : Message) :
    request.replyChannel ≠ Channel.completionRequest := Channel.reply_ne (by decide) _ _

/-- **Each request is answered once.** The requests that are not left open are the first ones; apart
from requests for completions, everything is sent on their reply channels, once and in order. -/
theorem exists_answered {requests left : List Message} {lines : List String} {os : List Outgoing}
    (h : serve requests lines = some (os, left)) :
    ∃ answered, requests = answered ++ left ∧
      (os.map (·.channel)).filter (· != Channel.completionRequest) =
        answered.map (·.replyChannel) := by
  induction lines generalizing requests os with
  | nil =>
    rw [serve] at h
    cases h
    exact ⟨[], rfl, rfl⟩
  | cons line lines ih =>
    cases requests with
    | nil => cases h
    | cons request requests =>
      rw [serve] at h
      obtain ⟨⟨os', left'⟩, hrest, heq⟩ := Option.map_eq_some_iff.1 h
      cases heq
      obtain ⟨answered, hanswered, hchannels⟩ := ih hrest
      rw [List.map_cons]
      rcases useFor_cases request line with ⟨hchannel, hopen⟩ | ⟨hchannel, hdone⟩
      · rw [hopen] at hanswered
        refine ⟨answered, hanswered, ?_⟩
        rw [hchannel, List.filter_cons_of_neg (by simp), hchannels]
      · rw [hdone] at hanswered
        refine ⟨request :: answered, congrArg (request :: ·) hanswered, ?_⟩
        have hne := replyChannel_ne_completionRequest request
        rw [hchannel, List.filter_cons_of_pos (by simpa using hne), hchannels, List.map_cons]

/-! ## A turn -/

/-- A turn leads to one terminal. -/
theorem LeadsTo.and {P Q : World → Terminal → Prop} {led : World × Progress Activity}
    (h : LeadsTo P led) (h' : LeadsTo Q led) : LeadsTo (fun w t => P w t ∧ Q w t) led := by
  obtain ⟨t, hnext, ht⟩ := h
  obtain ⟨t', hnext', ht'⟩ := h'
  obtain rfl : t = t' := by
    rcases hnext with hnext | hnext <;> rcases hnext' with hnext' | hnext' <;>
      cases hnext.symm.trans hnext' <;> rfl
  exact ⟨t, hnext, ht, ht'⟩

/-- What a turn does with requests and lines: the lines that are used, what is sent for them, and the
requests that are left open. -/
structure Serves (t : Terminal) (w w' : World) (t' : Terminal) : Prop where
  keyPressed : t'.keyPressed = false
  inputEnded : t'.inputEnded = false
  served : ∃ used os left, t.lines = used ++ t'.lines ∧
    serve (t.open?.toList ++ (t.taken? w).toList) used = some (os, left) ∧
    (t'.isEnded = false → left = t'.open?.toList) ∧ os.length ≤ 1 ∧
    Bus.Publishes (os.map fun o => ⟨o.channel, w.stamp o⟩) w.bus w'.bus

section
variable {t t' : Terminal} {w w' : World}

/-- No request is taken and no line is used. -/
theorem serves_idle (hkey : t'.keyPressed = false) (hend : t'.inputEnded = false)
    (hn : t.taken? w = none) (hlines : t'.lines = t.lines)
    (hopen : t'.isEnded = false → t'.open? = t.open?) (hw : Bus.Publishes [] w.bus w'.bus) :
    t.Serves w w' t' := by
  refine ⟨hkey, hend, [], [], t.open?.toList, hlines.symm, ?_, fun hruns => ?_, Nat.zero_le 1, hw⟩
  · rw [hn, serve]
    exact congrArg (fun requests => some ([], requests)) (List.append_nil _)
  · rw [hopen hruns]

/-- The open request gets a line. -/
theorem serves_line {request : Message} {line : String} (hkey : t'.keyPressed = false)
    (hend : t'.inputEnded = false) (hn : t.taken? w = none) (ho : t.open? = some request)
    (hlines : t.lines = line :: t'.lines) (hleft : (useFor request line).2 = t'.open?.toList)
    (hw : Bus.Publishes [⟨(useFor request line).1.channel, w.stamp (useFor request line).1⟩] w.bus
      w'.bus) : t.Serves w w' t' := by
  refine ⟨hkey, hend, [line], [(useFor request line).1], _, hlines, ?_, fun _ => hleft,
    Nat.le_refl 1, hw⟩
  rw [hn, ho]
  exact serve_one request line

/-- The line is the answer, possibly without the tab at its end; `t'` has put it down. -/
theorem serves_reply {request : Message} {line text : String} (hkey : t'.keyPressed = false)
    (hend : t'.inputEnded = false) (hn : t.taken? w = none) (ho : t.open? = some request)
    (hlines : t.lines = line :: t'.lines) (hwatch : t'.watch = .all)
    (huse : useFor request line = (answer request text, [])) :
    LeadsTo (t.Serves w) (reply t' request text w) := by
  have hleft : open? { t' with pending := none } = none := open?_of_all hwatch
  refine leadsTo_again (serves_line hkey hend hn ho hlines ?_ (huse ▸ .send w _))
  rw [huse, hleft]
  rfl

variable (t w)

theorem serves_finish (hkey : t.keyPressed = false) (hend : t.inputEnded = false)
    {fault : Option String} (h : t.Ends w fault) (id : SubscriptionId) :
    LeadsTo (t.Serves w) (finish t fault (w.taken id)) :=
  leadsTo_wait (serves_idle hkey hend h.taken? rfl nofun
    ((Bus.Publishes.taken w id).trans (.releaseAll _ t.holds)))

theorem serves_readLine (hkey : t.keyPressed = false) (hend : t.inputEnded = false)
    (hwatch : t.watch = .all) {request : Message} (hp : t.pending = some request)
    (hn : t.taken? w = none) : LeadsTo (t.Serves w) (readLine t request w) := by
  have ho : t.open? = some request := (open?_of_all hwatch).trans hp
  unfold readLine
  split
  · next line lines hlines =>
    unfold useLine
    split
    · next part htab =>
      cases hplain : isPlain request with
      | true =>
        rw [if_pos rfl]
        refine serves_reply hkey hend hn ho hlines hwatch ?_
        rw [useFor_eq, hplain, htab]
        rfl
      | false =>
        have huse : useFor request line = (completionRequest part, [request]) := by
          rw [useFor_eq, hplain, htab]
        rw [if_neg Bool.false_ne_true]
        refine leadsTo_wait (serves_line hkey hend hn ho hlines (congrArg Prod.snd huse) ?_)
        exact huse ▸ (Bus.Publishes.send w _).trans (.listen _ _)
    · next htab =>
      refine serves_reply hkey hend hn ho hlines hwatch ?_
      rw [useFor_eq, htab]
      cases isPlain request <;> rfl
  · rw [hend, if_neg Bool.false_ne_true, rest, hkey, if_neg Bool.false_ne_true]
    exact leadsTo_wait (serves_idle hkey hend hn rfl (fun _ => rfl) .refl)

theorem serves_takeRequest (hkey : t.keyPressed = false) (hend : t.inputEnded = false)
    (hwatch : t.watch = .all) (hout : w.peek t.output = .waiting)
    (hexit : w.peek t.exits = .waiting) (hp : t.pending = none) :
    LeadsTo (t.Serves w) (takeRequest t w) := by
  unfold takeRequest
  split
  · next hr =>
    have hn : t.taken? w = none := by simp only [taken?, hwatch, hout, hexit, hp, hr]
    rw [rest, hkey, if_neg Bool.false_ne_true]
    exact leadsTo_wait (serves_idle hkey hend hn rfl (fun _ => rfl) .refl)
  · next hr => exact serves_finish t w hkey hend (.requests hwatch hout hr) t.requests
  · next e he =>
    have ht : t.taken? w = some e.payload := by simp only [taken?, hwatch, hout, hexit, hp, he]
    have ho : t.open? = none := (open?_of_all hwatch).trans hp
    have hopened : open? ({ t with pending := some e.payload, responding := false }.print
        (.prompt (isPlain e.payload))) = some e.payload := open?_of_all hwatch
    refine leadsTo_again ⟨hkey, hend, [], [], [e.payload], rfl, ?_, fun _ => ?_, Nat.zero_le 1,
      .taken w t.requests⟩
    · rw [ht, ho, serve]
      rfl
    · rw [hopened]
      rfl

theorem serves_watchTurn (hkey : t.keyPressed = false) (hend : t.inputEnded = false)
    (hwatch : t.watch = .all) : LeadsTo (t.Serves w) (watchTurn t w) := by
  unfold watchTurn
  split
  · next e he =>
    have hn : t.taken? w = none := by simp only [taken?, hwatch, he]
    exact leadsTo_again (serves_idle hkey hend hn rfl (fun _ => rfl) (.taken w t.output))
  · next hout => exact serves_finish t w hkey hend (.output hwatch hout) t.output
  · next hout =>
    split
    · next hexit =>
      exact serves_finish t w hkey hend (.exits hwatch hout (by simp [hexit])) t.exits
    · next hexit =>
      exact serves_finish t w hkey hend (.exits hwatch hout (by simp [hexit])) t.exits
    · next hexit =>
      split
      · next request hp =>
        have hn : t.taken? w = none := by simp only [taken?, hwatch, hout, hexit, hp]
        exact serves_readLine t w hkey hend hwatch hp hn
      · next hp => exact serves_takeRequest t w hkey hend hwatch hout hexit hp

theorem serves_completionTurn (hkey : t.keyPressed = false) (hend : t.inputEnded = false)
    {request : Message} {line : String} {id : SubscriptionId} {deadline : Nat}
    (hwatch : t.watch = .completions request line id deadline) :
    LeadsTo (t.Serves w) (completionTurn t request line id deadline w) := by
  have hn : t.taken? w = none := by simp only [taken?, hwatch]
  have ho : t.open? = some request := by rw [open?, hwatch]
  have hread : Bus.Publishes [] w.bus ((w.taken id).release id).bus :=
    (Bus.Publishes.taken w id).trans (.release _ id)
  unfold completionTurn
  split
  · next e he =>
    split
    · exact leadsTo_again (serves_idle rfl hend hn rfl (fun _ => ho.symm) hread)
    · next hnone => exact serves_finish t w hkey hend (.fault hwatch he hnone _) id
  · exact leadsTo_again (serves_idle rfl hend hn rfl (fun _ => ho.symm) hread)
  · split
    · exact leadsTo_again (serves_idle rfl hend hn rfl (fun _ => ho.symm) (.release w id))
    · exact leadsTo_wait (serves_idle hkey hend hn rfl (fun _ => rfl) .refl)

/-- **A turn serves requests and lines** as they are served one after the other. -/
theorem serves_turn (hkey : t.keyPressed = false) (hend : t.inputEnded = false) :
    LeadsTo (t.Serves w) (t.turn w) := by
  unfold turn
  split
  · next hwatch => exact serves_watchTurn t w hkey hend hwatch
  · next hwatch => exact serves_completionTurn t w hkey hend hwatch
  · next hwatch =>
    have hn : t.taken? w = none := by simp only [taken?, hwatch]
    exact leadsTo_wait (serves_idle hkey hend hn rfl (fun _ => rfl) .refl)

end

/-! ## When the terminal waits -/

/-- Nothing can be served: a request is open and no line has been entered, or none is open and none
has come. -/
def Idle (t : Terminal) (w : World) : Prop :=
  match t.open? with
  | some _ => t.lines = []
  | none => w.peek t.requests = .waiting

/-- A terminal that waits for everything has nothing that it can serve. -/
def Rests (led : World × Progress Activity) : Prop :=
  ∀ t : Terminal, led.2 = .wait (.terminal t) → t.watch = .all → t.Idle led.1

section
variable (t : Terminal) (w : World)

theorem rests_again : Rests (again t w) := fun _ hwait => nomatch hwait

theorem rests_finish (fault : Option String) : Rests (finish t fault w) := by
  rintro _ ⟨⟩ hwatch
  cases hwatch

/-- Whoever waits for something else has time until that has come. -/
theorem rests_wait {t : Terminal} (h : t.watch = .all → t.Idle w) : Rests (wait t w) := by
  rintro _ ⟨⟩ hwatch
  exact h hwatch

theorem rests_useLine (request : Message) (line : String) : Rests (useLine t request line w) := by
  unfold useLine
  split
  · split
    · exact rests_again _ _
    · exact rests_wait _ nofun
  · exact rests_again _ _

theorem rests_readLine (hkey : t.keyPressed = false) (hend : t.inputEnded = false)
    {request : Message} (hp : t.pending = some request) : Rests (readLine t request w) := by
  unfold readLine
  split
  · exact rests_useLine _ w request _
  · next hlines =>
    rw [hend, if_neg Bool.false_ne_true, rest, hkey, if_neg Bool.false_ne_true]
    refine rests_wait w fun hwatch => ?_
    rw [Idle, open?_of_all hwatch, hp]
    exact hlines

theorem rests_takeRequest (hkey : t.keyPressed = false) (hp : t.pending = none) :
    Rests (takeRequest t w) := by
  unfold takeRequest
  split
  · next hr =>
    rw [rest, hkey, if_neg Bool.false_ne_true]
    refine rests_wait w fun hwatch => ?_
    rw [Idle, open?_of_all hwatch, hp]
    exact hr
  · exact rests_finish t _ none
  · exact rests_again _ _

/-- **The terminal waits for more requests and lines** only if it can serve nothing. -/
theorem rests_turn (hkey : t.keyPressed = false) (hend : t.inputEnded = false) :
    Rests (t.turn w) := by
  unfold turn
  split
  · unfold watchTurn
    split
    · exact rests_again _ _
    · exact rests_finish t _ none
    · split
      · exact rests_finish t _ none
      · exact rests_finish t _ none
      · split
        · next hp => exact rests_readLine t w hkey hend hp
        · next hp => exact rests_takeRequest t w hkey hp
  · next hwatch =>
    unfold completionTurn
    split
    · split
      · exact rests_again _ _
      · exact rests_finish t _ _
    · exact rests_again _ _
    · split
      · exact rests_again _ _
      · exact rests_wait w fun hall => nomatch hwatch.symm.trans hall
  · next hwatch => exact rests_wait w fun hall => nomatch hwatch.symm.trans hall

end

end Terminal
end Parley
