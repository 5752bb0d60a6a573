import Parley.Proofs.Session.Race
import Parley.Proofs.Session.Sending
import Parley.Terminal.Print

/-!
# Prompts said back word by word

A `Recital` is a race for a response that says a prompt back, with a record of the messages that the
looks at it have sent and of what others have made of the memory meanwhile. What has been sent says
the first words of the prompt (`Says`), at whatever moment an interrupt comes; the prompt is
remembered when the last has been said and not before (`Recital.recites`). All words together are
printed as one line (`Says.renderAll_eq`).
-/

set_option autoImplicit false

namespace Parley

/-! ## Messages that say words -/

/-- The messages say the first of the words in their order. All but the last of the words have a
blank behind them in place of the line end. -/
structure Says (words : List String) (ms : List Message) : Prop where
  texts : ms.map (·.data) = (words.take ms.length).map .text
  channel : ∀ m ∈ ms, m.channel = Channel.default
  extra : ∀ i m, ms[i]? = some m →
    m.extra = if i + 1 < words.length then [("end", .text " ")] else []

/-- The message for a word, before it is stamped; `rest` are the words after it. -/
def Engine.chunk (word : String) (rest : List String) : Outgoing :=
  if rest.isEmpty then { data := .text word } else { data := .text word : Outgoing }.withEnd " "

namespace Says

variable {words : List String} {ms : List Message}

theorem nil (words : List String) : Says words [] := ⟨rfl, nofun, nofun⟩

theorem length_le (h : Says words ms) : ms.length ≤ words.length := by
  have hlength := congrArg List.length h.texts
  rw [List.length_map, List.length_map, List.length_take] at hlength
  omega

/-- The next word is said. -/
theorem concat (h : Says words ms) {word : String} {rest : List String}
    (hrest : words.drop ms.length = word :: rest) (id : MessageId) (now : Timestamp) :
    Says words (ms ++ [(Engine.chunk word rest).stamp id now]) := by
  have hlength : words.length = ms.length + 1 + rest.length := by
    have hdrop := congrArg List.length hrest
    rw [List.length_drop, List.length_cons] at hdrop
    omega
  have hchunk : Engine.chunk word rest =
      { data := .text word, extra := if rest.isEmpty then [] else [("end", .text " ")] } := by
    unfold Engine.chunk
    split <;> rfl
  rw [hchunk]
  refine ⟨?_, ?_, ?_⟩
  · rw [List.length_append, List.length_singleton, List.take_add, hrest, List.map_append, h.texts,
      List.map_append]
    rfl
  · intro m hm
    rcases List.mem_append.1 hm with hm | hm
    · exact h.channel m hm
    · rw [List.mem_singleton.1 hm]
      rfl
  · intro i m hm
    rw [List.getElem?_append] at hm
    split at hm
    · exact h.extra i m hm
    · next hi =>
      obtain rfl : i = ms.length := by
        have hlt := (List.getElem?_eq_some_iff.1 hm).1
        rw [List.length_singleton] at hlt
        omega
      rw [Nat.sub_self] at hm
      cases hm
      cases rest <;> simp [Outgoing.stamp, hlength]

/-- The words but for the first are said by the messages but for the first. -/
theorem tail {word : String} {m : Message} (h : Says (word :: words) (m :: ms)) :
    Says words ms := by
  refine ⟨?_, fun m' hm => h.channel m' (List.mem_cons_of_mem _ hm), fun i m' hm => ?_⟩
  · have htexts := h.texts
    rw [List.length_cons, List.take_succ_cons, List.map_cons, List.map_cons] at htexts
    exact (List.cons.inj htexts).2
  · have hextra := h.extra (i + 1) m' hm
    simpa only [List.length_cons, Nat.add_lt_add_iff_right] using hextra

/-- The message for the first word is printed as that word. -/
theorem renderMessage_head {word : String} {m : Message} (h : Says (word :: words) (m :: ms))
    (color : Bool) :
    Print.renderMessage color m = word ++ if words = [] then "\n" else " " := by
  have hdata : m.data = .text word := (List.cons.inj h.texts).1
  have hextra := h.extra 0 m rfl
  have hstyle : m.style? = none := by
    rw [Message.style?, hextra]
    split <;> rfl
  have htext : Print.messageText m = word := by rw [Print.messageText, hdata]
  have hend : Print.terminator m = if words = [] then "\n" else " " := by
    rw [Print.terminator, hextra]
    cases words <;> simp [Fields.get?, Value.asText?]
  rw [Print.renderMessage, hstyle, hend]
  simp only [htext]

/-- **All words are printed as one line**, whatever the colours. -/
theorem renderAll_eq (h : Says words ms) (hlength : ms.length = words.length) (hne : words ≠ [])
    (color : Bool) :
    Print.renderAll color (ms.map .message) = " ".intercalate words ++ "\n" := by
  induction words generalizing ms with
  | nil => exact absurd rfl hne
  | cons word words ih =>
    obtain ⟨m, ms, rfl⟩ := List.exists_cons_of_length_eq_add_one hlength
    have hhead : Print.render color (.message m) = _ := h.renderMessage_head color
    rw [Print.renderAll, List.map_cons, List.map_cons, String.join_cons, hhead]
    by_cases hlast : words = []
    · subst hlast
      rw [if_pos rfl, List.eq_nil_of_length_eq_zero (Nat.succ.inj hlength)]
      simp
    · have hrest := ih h.tail (Nat.succ.inj hlength) hlast
      rw [Print.renderAll] at hrest
      rw [if_neg hlast, hrest, String.intercalate_cons_of_ne_nil hlast, String.append_assoc,
        String.append_assoc, String.append_assoc]

end Says

/-! ## One look at the work -/

section
variable (settings : Settings) (prompt : String)

/-- What is left of a response when these messages have been sent. -/
def Engine.echoAfter (sent : List Message) : Response :=
  chunks settings.streamDelay (.record prompt (.finish ()))
    ((Text.words prompt).drop sent.length)

/-- Where the work for a response stands when these messages have been sent. -/
inductive Recites (sent : List Message) : Working Unit → Prop
  | fresh (h : sent = []) : Recites sent (.fresh (Engine.echo.respond settings prompt))
  | asleep {wake : Nat} (hdelay : settings.streamDelay ≠ 0)
    (h : Text.words prompt ≠ [] → sent ≠ []) :
    Recites sent (.asleep [] wake (Engine.echoAfter settings prompt sent))

/-- What the work comes to in a look, in which it sends `more`. -/
inductive Tells (sent more : List Message) (w : World) :
    World × Poll (Except Error Unit) (Working Unit) → Prop
  | pauses {w' : World} {work : Working Unit} (hsends : Sends more w w')
    (hdelay : settings.streamDelay ≠ 0) (h : Recites settings prompt (sent ++ more) work)
    (hne : Text.words prompt ≠ [] → sent ++ more ≠ []) :
    Tells sent more w (w', .pending work)
  | ends {w' : World} (hsends : Sends more w w')
    (hlength : (sent ++ more).length = (Text.words prompt).length) :
    Tells sent more w (remember prompt w', .ready (.ok ()))

end

section
variable {settings : Settings} {prompt : String} {sent more : List Message} {w w' : World}

/-- A look goes on where messages have been sent before. -/
theorem Tells.after {more' : List Message} (hsends : Sends more w w')
    {polled : World × Poll (Except Error Unit) (Working Unit)}
    (h : Tells settings prompt (sent ++ more) more' w' polled) :
    Tells settings prompt sent (more ++ more') w polled := by
  cases h with
  | pauses h hdelay hrest hne =>
    rw [List.append_assoc] at hrest hne
    exact .pauses (hsends.trans h) hdelay hrest hne
  | ends h hlength =>
    rw [List.append_assoc] at hlength
    exact .ends (hsends.trans h) hlength

/-- The rest of a response sends the next words up to the next pause. -/
theorem tells_echoAfter (h : Says (Text.words prompt) sent) (w : World) :
    ∃ more, Says (Text.words prompt) (sent ++ more) ∧
      Tells settings prompt sent more w ((Engine.echoAfter settings prompt sent).run [] w) := by
  rw [Engine.echoAfter]
  generalize hrest : (Text.words prompt).drop sent.length = rest
  induction rest generalizing sent w with
  | nil =>
    have hlength : sent.length = (Text.words prompt).length :=
      Nat.le_antisymm h.length_le (List.drop_eq_nil_iff.1 hrest)
    refine ⟨[], by rwa [List.append_nil], .ends .refl ?_⟩
    rwa [List.append_nil]
  | cons word rest ih =>
    have hsend := Sends.send w (Engine.chunk word rest)
    have hsaid : Says (Text.words prompt) (sent ++ [w.stamp (Engine.chunk word rest)]) :=
      h.concat hrest _ _
    have hdrop : (Text.words prompt).drop (sent ++ [w.stamp (Engine.chunk word rest)]).length =
        rest := by
      rw [List.length_append, List.length_singleton, ← List.drop_drop, hrest]
      rfl
    by_cases hdelay : settings.streamDelay = 0
    · obtain ⟨more, hmore, htells⟩ := ih hsaid (w.send (Engine.chunk word rest)) hdrop
      rw [List.append_assoc] at hmore
      refine ⟨_ :: more, hmore, ?_⟩
      rw [Engine.chunks, if_pos hdelay]
      exact htells.after hsend
    · refine ⟨_, hsaid, ?_⟩
      rw [Engine.chunks, if_neg hdelay]
      have hwork : Recites settings prompt (sent ++ [w.stamp (Engine.chunk word rest)])
          (.asleep [] ((w.send (Engine.chunk word rest)).clock + settings.streamDelay)
            (Engine.echoAfter settings prompt (sent ++ [w.stamp (Engine.chunk word rest)]))) :=
        .asleep hdelay fun _ => by simp
      rw [Engine.echoAfter, hdrop] at hwork
      have hpauses := Tells.pauses hsend hdelay hwork fun _ => by simp
      simp only [Job.run, if_neg hdelay]
      exact hpauses

/-- **One look at the work** sends the next words. -/
theorem tells_poll (h : Says (Text.words prompt) sent) {work : Working Unit}
    (hwork : Recites settings prompt sent work) (w : World) :
    ∃ more, Says (Text.words prompt) (sent ++ more) ∧
      Tells settings prompt sent more w (work.poll w) := by
  cases hwork with
  | fresh hsent =>
    subst hsent
    exact tells_echoAfter h w
  | asleep hdelay hne =>
    rw [Working.poll]
    split
    · exact tells_echoAfter h w
    · refine ⟨[], by rwa [List.append_nil], .pauses .refl hdelay ?_ ?_⟩
      · rw [List.append_nil]
        exact .asleep hdelay hne
      · rwa [List.append_nil]

/-! ## One look at the race -/

variable (settings prompt) in
/-- What a look at the race comes to, when these messages have been sent; `m` is remembered before
the look, `m'` after it. -/
inductive Comes (sent : List Message) (m m' : Memory) :
    Poll (Except Error (Except Error Unit)) (Race Unit) → Prop
  | goesOn {r : Race Unit} (hdelay : settings.streamDelay ≠ 0) (hm : m' = m) :
    Comes sent m m' (.pending r)
  | interrupted (hdelay : settings.streamDelay ≠ 0) (hm : m' = m) :
    Comes sent m m' (.ready (.error .interrupted))
  | ended (hm : m' = { m with prompts := m.prompts ++ [prompt] })
    (hlength : sent.length = (Text.words prompt).length) :
    Comes sent m m' (.ready (.ok (.ok ())))

variable (settings prompt) in
/-- What a look at the race does, in which the response sends `more`. -/
structure Looked (sent more : List Message) (w : World)
    (polled : World × Poll (Except Error (Except Error Unit)) (Race Unit)) : Prop where
  published : Published more w polled.1
  first : Text.words prompt ≠ [] → sent ++ more ≠ []
  comes : Comes settings prompt (sent ++ more) w.shared.memory polled.1.shared.memory polled.2
  rest : ∀ r, polled.2 = .pending r → Recites settings prompt (sent ++ more) r.work

theorem Tells.looked_ended {v : Except Error Unit}
    (h : Tells settings prompt sent more w (w', .ready v)) (ids : List SubscriptionId) :
    Looked settings prompt sent more w (w'.releaseAll ids, .ready (.ok v)) := by
  cases h with
  | @ends w₁ hsends hlength =>
    have hrelease := Sends.releaseAll (remember prompt w₁) ids
    have hpublished := hsends.publishes.trans hrelease.publishes
    rw [List.map_nil, List.append_nil] at hpublished
    refine ⟨hpublished, ?_, .ended ?_ hlength, nofun⟩
    · intro hne hnil
      rw [hnil] at hlength
      exact hne (List.eq_nil_of_length_eq_zero hlength.symm)
    · rw [hrelease.shared, ← hsends.shared]
      rfl

theorem Tells.looked_interrupted {w'' : World} {work : Working Unit}
    (h : Tells settings prompt sent more w (w', .pending work)) (hquiet : Sends [] w' w'') :
    Looked settings prompt sent more w (w'', .ready (.error .interrupted)) := by
  cases h with
  | pauses hsends hdelay hrest hne =>
    have hall := hsends.trans hquiet
    rw [List.append_nil] at hall
    exact ⟨hall.publishes, hne, .interrupted hdelay (by rw [hall.shared]), nofun⟩

theorem Tells.looked_goesOn {work : Working Unit}
    (h : Tells settings prompt sent more w (w', .pending work))
    (interrupts : Option SubscriptionId) :
    Looked settings prompt sent more w (w', .pending ⟨work, interrupts⟩) := by
  cases h with
  | pauses hsends hdelay hrest hne =>
    refine ⟨hsends.publishes, hne, .goesOn hdelay (by rw [hsends.shared]), ?_⟩
    intro r hr
    cases hr
    exact hrest

/-- A look at work that pauses, once its listener has been given up. -/
theorem Tells.again {work : Working Unit}
    (h : Tells settings prompt sent more w (w', .pending work))
    (hsaid : Says (Text.words prompt) (sent ++ more)) (id : SubscriptionId) :
    ∃ more', Says (Text.words prompt) (sent ++ more') ∧
      Tells settings prompt sent more' w (work.poll ((w'.taken id).release id)) := by
  cases h with
  | pauses hsends hdelay hrest hne =>
    obtain ⟨more', hsaid', htells⟩ := tells_poll hsaid hrest ((w'.taken id).release id)
    have hread := hsends.trans (Sends.read w' id)
    rw [List.append_nil] at hread
    rw [List.append_assoc] at hsaid'
    exact ⟨more ++ more', hsaid', htells.after hread⟩

/-- **One look at the race**, at the work first. -/
theorem looked_poll (hsaid : Says (Text.words prompt) sent) {r : Race Unit}
    (hr : Recites settings prompt sent r.work) (w : World) :
    ∃ more, Says (Text.words prompt) (sent ++ more) ∧
      Looked settings prompt sent more w (r.poll w) := by
  obtain ⟨more, hmore, htells⟩ := tells_poll hsaid hr w
  rcases r.poll_cases w with ⟨result, w', hpoll, hends⟩ | ⟨r', w', hpoll, hgoes⟩
  · rw [hpoll]
    cases hends with
    | won hwork =>
      rw [hwork] at htells
      exact ⟨more, hmore, htells.looked_ended _⟩
    | wonAlone hwork hid hpeek hagain =>
      rw [hwork] at htells
      obtain ⟨more', hmore', htells'⟩ := htells.again hmore _
      rw [hagain] at htells'
      exact ⟨more', hmore', htells'.looked_ended []⟩
    | @interrupted w₁ work id e hwork hid hpeek =>
      rw [hwork] at htells
      have htaken : Sends [] w₁ (w₁.taken id) := ⟨.taken w₁ id, rfl⟩
      have hquiet := (htaken.trans (.releaseAll _ work.holds)).trans (.releaseAll _ [id])
      exact ⟨more, hmore, htells.looked_interrupted hquiet⟩
  · rw [hpoll]
    cases hgoes with
    | alone hwork hid | listening hwork hid hpeek =>
      rw [hwork] at htells
      exact ⟨more, hmore, htells.looked_goesOn _⟩
    | closed hwork hid hpeek hagain =>
      rw [hwork] at htells
      obtain ⟨more', hmore', htells'⟩ := htells.again hmore _
      rw [hagain] at htells'
      exact ⟨more', hmore', htells'.looked_goesOn none⟩

end

/-! ## A response in the world -/

/-- A race for a response that is going on, and what has happened since it was started. -/
structure Recital where
  world : World
  race : Race Unit
  /-- What the response has sent. -/
  sent : List Message := []
  /-- What others have made of what is remembered. -/
  changed : Memory → Memory := id

namespace Recital

def start (settings : Settings) (prompt : String) (w : World) : Recital :=
  { world := (Race.start (Engine.echo.respond settings prompt) w).2
    race := (Race.start (Engine.echo.respond settings prompt) w).1 }

inductive Step (x : Recital) : Recital → Prop
  | look {r : Race Unit} {w : World} {more : List Message}
    (h : x.race.poll x.world = (w, .pending r)) (hsent : Published more x.world w) :
    Step x { x with world := w, race := r, sent := x.sent ++ more }
  | others {w : World} {acts : List (Bus.Act Message)} {f : Memory → Memory}
    (hb : w.bus = x.world.bus.run acts) (hm : w.shared.memory = f x.world.shared.memory) :
    Step x { x with world := w, changed := f ∘ x.changed }

/-- What a response comes to before it is over, from its start in the world `w`. -/
inductive Reached (settings : Settings) (prompt : String) (w : World) : Recital → Prop
  | start : Reached settings prompt w (start settings prompt w)
  | step {x y : Recital} (hx : Reached settings prompt w x) (h : Step x y) :
    Reached settings prompt w y

/-- What holds of every response that goes on. -/
structure Inv (settings : Settings) (prompt : String) (w : World) (x : Recital) : Prop where
  agrees : x.world.bus.Agrees
  said : Says (Text.words prompt) x.sent
  work : Recites settings prompt x.sent x.race.work
  memory : x.world.shared.memory = x.changed w.shared.memory

variable {settings : Settings} {prompt : String} {w : World} {x y : Recital}

theorem Inv.looks (h : Inv settings prompt w x) {more : List Message}
    (hsent : Published more x.world (x.race.poll x.world).1) :
    Says (Text.words prompt) (x.sent ++ more) ∧
      Looked settings prompt x.sent more x.world (x.race.poll x.world) := by
  obtain ⟨more', hsaid, hlooked⟩ := looked_poll h.said h.work x.world
  have hchannel : ∀ m ∈ more', m.channel = Channel.default := fun m hm =>
    hsaid.channel m (List.mem_append_right _ hm)
  obtain rfl : more = more' := hlooked.published.unique hsent h.agrees hchannel
  exact ⟨hsaid, hlooked⟩

theorem Inv.step (h : Inv settings prompt w x) (hs : Step x y) : Inv settings prompt w y := by
  cases hs with
  | @look r w' more hp hsent =>
    have hpoll : (x.race.poll x.world).1 = w' := by rw [hp]
    subst hpoll
    obtain ⟨hsaid, hlooked⟩ := h.looks hsent
    obtain ⟨acts, hacts, -⟩ := hsent.acts
    refine ⟨hacts ▸ h.agrees.run acts, hsaid, hlooked.rest r (by rw [hp]), ?_⟩
    have hcomes := hlooked.comes
    rw [hp] at hcomes
    cases hcomes with
    | goesOn hdelay hm => exact hm.trans h.memory
  | others hb hm =>
    refine ⟨hb ▸ h.agrees.run _, h.said, h.work, ?_⟩
    rw [hm, h.memory]
    rfl

theorem inv_of_reached (hw : ∃ acts, w.bus = Bus.run {} acts) (hx : Reached settings prompt w x) :
    Inv settings prompt w x := by
  induction hx with
  | start =>
    obtain ⟨acts, hacts⟩ := hw
    have hagrees : w.bus.Agrees := hacts ▸ Bus.agrees_run acts
    have hlistens := Race.listens_start (Engine.echo.respond settings prompt) hagrees
    refine ⟨hlistens.agrees, .nil _, .fresh rfl, ?_⟩
    exact congrArg Context.memory (Schedule.roused_nudge _).shared
  | step _ hs ih => exact ih.step hs

/-- **A prompt said back under an interrupt.** A look at the race, at whatever moment, sends
messages and nothing else is published. With those sent before they say the first words of the
prompt, at least one if there is one. If the response returns, the prompt is remembered and all words
have been sent, so that they are printed as one line; if it goes on or is interrupted, nothing is
remembered of it. Nothing else comes of it, and without a delay it returns at once. -/
theorem recites (hw : ∃ acts, w.bus = Bus.run {} acts) (hx : Reached settings prompt w x) :
    let words := Text.words prompt
    let looked := x.race.poll x.world
    (∃ more, Published more x.world looked.1) ∧
    ∀ more, Published more x.world looked.1 →
      Says words (x.sent ++ more) ∧ (words ≠ [] → x.sent ++ more ≠ []) ∧
      Comes settings prompt (x.sent ++ more) (x.changed w.shared.memory) looked.1.shared.memory
        looked.2 ∧
      (looked.2 = .ready (.ok (.ok ())) → words ≠ [] → ∀ color,
        Print.renderAll color ((x.sent ++ more).map .message) = " ".intercalate words ++ "\n") ∧
      (settings.streamDelay = 0 → looked.2 = .ready (.ok (.ok ()))) := by
  have hinv := inv_of_reached hw hx
  intro words looked
  constructor
  · obtain ⟨more, -, hlooked⟩ := looked_poll hinv.said hinv.work x.world
    exact ⟨more, hlooked.published⟩
  intro more hmore
  obtain ⟨hsaid, hlooked⟩ := hinv.looks hmore
  have hcomes := hlooked.comes
  rw [hinv.memory] at hcomes
  refine ⟨hsaid, hlooked.first, hcomes, ?_, ?_⟩
  · intro hended hne color
    refine hsaid.renderAll_eq ?_ hne color
    change Comes settings prompt _ _ _ looked.2 at hcomes
    rw [hended] at hcomes
    cases hcomes with
    | ended hm hlength => exact hlength
  · intro hdelay
    change Comes settings prompt _ _ _ looked.2 at hcomes
    generalize looked.2 = polled at hcomes ⊢
    cases hcomes with
    | goesOn hne | interrupted hne => exact absurd hdelay hne
    | ended => rfl

/-- An interrupt from before the response cuts it short behind its first word, and nothing is
remembered. -/
theorem recites_first_word :
    let e : Event Message := ⟨Channel.interrupt,
      { id := .ofSerial 0, channel := Channel.interrupt, source := .server, data := .null,
        extra := [], createdAt := .ofMillis 0 }⟩
    let w : World := { shared := {}, bus := Bus.run {} [.publish e, .connect true] }
    let x := start {} " a b " w
    let said := x.world.stamp (Engine.chunk "a" ["b"])
    let looked : Recital :=
      { world := (x.race.poll x.world).1
        race := { work := .asleep [] 40 (Engine.echoAfter {} " a b " [said]), interrupts := some 0 }
        sent := [said] }
    let y : Recital := { looked with
      world := { looked.world with bus := looked.world.bus.dispatch }, changed := id ∘ id }
    Reached {} " a b " w y ∧ Says (Text.words " a b ") y.sent ∧
      (y.race.poll y.world).2 = .ready (.error .interrupted) ∧
      (y.race.poll y.world).1.shared.memory.prompts = [] := by
  intro e w x said looked y
  have hsent : Published [said] x.world looked.world := (Sends.send x.world _).publishes
  have hlook : Step x looked := .look rfl hsent
  have hbus : y.world.bus = looked.world.bus.run [.dispatch] := rfl
  have hothers : Step looked y := .others hbus rfl
  have hy : Reached {} " a b " w y := (Reached.start.step hlook).step hothers
  have hpoll : (y.race.poll y.world).2 = .ready (.error .interrupted) := rfl
  have hnone : Published [] y.world (y.race.poll y.world).1 :=
    (Sends.read y.world 0).publishes
  obtain ⟨hsaid, -, hcomes, -⟩ := (recites ⟨_, rfl⟩ hy).2 [] hnone
  refine ⟨hy, hsaid, hpoll, ?_⟩
  rw [hpoll] at hcomes
  cases hcomes with
  | interrupted hdelay hm =>
    rw [hm]
    rfl

end Recital

end Parley
