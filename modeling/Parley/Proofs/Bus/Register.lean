import Parley.Bus.Basic

/-!
# The register as one list for each scope

`Table.listed t scope` are the mailboxes that `t` lists under `scope`. In a sound table
(`Table.Sound`: a channel has one entry at most, and no entry is empty) a scope is listed exactly if
that list is not empty (`Table.isListed_iff`), and registering and striking off change the list of
their own scope and no other (`Table.listed_register`, `Table.listed_strike`). `Backend.isOpen` is
the same view of the backend: one flag for each scope.
-/

set_option autoImplicit false

namespace Parley

/-! ## Lists of pairs -/

section
variable {β : Type}

theorem lookup_eq_none_of_not_mem {l : List (String × β)} {c : String} (h : c ∉ l.map (·.1)) :
    l.lookup c = none := by
  refine List.lookup_eq_none_iff.2 fun e he => ?_
  rw [bne_iff_ne]
  rintro rfl
  exact h (List.mem_map_of_mem he)

theorem lookup_of_mem {l : List (String × β)} {e : String × β} (h : (l.map (·.1)).Nodup)
    (he : e ∈ l) : l.lookup e.1 = some e.2 := by
  induction l with
  | nil => cases he
  | cons x l ih =>
    obtain ⟨k, v⟩ := x
    rw [List.map_cons, List.nodup_cons] at h
    rcases List.mem_cons.1 he with rfl | he
    · simp
    · have hk : (e.1 == k) = false := by
        rw [beq_eq_false_iff_ne]
        intro hk
        exact h.1 (hk ▸ List.mem_map_of_mem (f := (·.1)) he)
      rw [List.lookup_cons, hk]
      exact ih h.2 he

theorem exists_lookup_of_mem {l : List (String × β)} {c : String} (h : c ∈ l.map (·.1)) :
    ∃ v, l.lookup c = some v := by
  cases hl : l.lookup c with
  | some v => exact ⟨v, rfl⟩
  | none =>
    obtain ⟨e, he, rfl⟩ := List.mem_map.1 h
    exact absurd (beq_self_eq_true e.1) (by simpa using List.lookup_eq_none_iff.1 hl e he)

theorem mem_of_lookup {l : List (String × β)} {c : String} {v : β} (h : l.lookup c = some v) :
    (c, v) ∈ l := by
  obtain ⟨l₁, l₂, rfl, -⟩ := List.lookup_eq_some_iff.1 h
  simp

/-- A change of the values under one key. -/
theorem lookup_map_key (l : List (String × β)) (c c' : String) (f : β → β) :
    (l.map fun e => if e.1 == c then (e.1, f e.2) else e).lookup c' =
      if c' = c then (l.lookup c').map f else l.lookup c' := by
  induction l with
  | nil => simp
  | cons e l ih =>
    obtain ⟨k, v⟩ := e
    rw [List.map_cons]
    by_cases hk : c' = k
    · subst hk
      by_cases hc : c' = c <;> simp [hc]
    · have hb : (c' == k) = false := by simpa using hk
      by_cases hc : k = c
      · rw [if_pos (by simpa using hc), List.lookup_cons, hb, List.lookup_cons, hb]
        exact ih
      · rw [if_neg (by simpa using hc), List.lookup_cons, hb, List.lookup_cons, hb]
        exact ih

theorem lookup_filter {l : List (String × β)} (h : (l.map (·.1)).Nodup) (p : β → Bool)
    (c : String) :
    (l.filter fun e => p e.2).lookup c = (l.lookup c).filter p := by
  induction l with
  | nil => rfl
  | cons e l ih =>
    obtain ⟨k, v⟩ := e
    rw [List.map_cons, List.nodup_cons] at h
    by_cases hk : c = k
    · subst hk
      have hn : (l.filter fun e => p e.2).lookup c = none := by
        rw [ih h.2, lookup_eq_none_of_not_mem h.1]
        rfl
      by_cases hp : p v <;> simp [hp, hn, Option.filter_some]
    · have hb : (c == k) = false := by simpa using hk
      by_cases hp : p v <;> simp [List.lookup_cons, hp, hb, ih h.2]

end

namespace Table

/-- The mailboxes listed under a scope, in the order in which they were registered. -/
def listed (t : Table) : Scope → List SubscriptionId
  | .channel c => t.mailboxes c
  | .universal => t.universal

structure Sound (t : Table) : Prop where
  keys : (t.channels.map (·.1)).Nodup
  full : ∀ e ∈ t.channels, e.2 ≠ []

theorem sound_empty : Sound {} := ⟨List.nodup_nil, nofun⟩

theorem has_iff_mem (t : Table) (c : String) : t.has c = true ↔ c ∈ t.channels.map (·.1) := by
  rw [has, List.any_eq_true, List.mem_map]
  exact exists_congr fun e => and_congr_right fun _ => beq_iff_eq

theorem mailboxes_of_mem {t : Table} (h : t.Sound) {e : String × List SubscriptionId}
    (he : e ∈ t.channels) : t.mailboxes e.1 = e.2 := by
  rw [mailboxes, lookup_of_mem h.keys he]
  rfl

theorem mailboxes_of_not_has {t : Table} {c : String} (h : t.has c = false) :
    t.mailboxes c = [] := by
  rw [mailboxes, lookup_eq_none_of_not_mem]
  · rfl
  · rw [← has_iff_mem, h]
    exact Bool.false_ne_true

/-- A channel has an entry exactly if a mailbox is registered for it. -/
theorem has_iff {t : Table} (h : t.Sound) (c : String) : t.has c = true ↔ t.mailboxes c ≠ [] := by
  constructor
  · intro hc
    obtain ⟨e, he, rfl⟩ := List.mem_map.1 ((has_iff_mem t c).1 hc)
    rw [mailboxes_of_mem h he]
    exact h.full e he
  · intro hm
    cases hc : t.has c
    · exact absurd (mailboxes_of_not_has hc) hm
    · rfl

theorem isListed_iff {t : Table} (h : t.Sound) (scope : Scope) :
    t.isListed scope = true ↔ t.listed scope ≠ [] := by
  cases scope with
  | channel c => exact has_iff h c
  | universal => simp [isListed, listed]

/-! ## Registering -/

theorem channels_register_of_has {t : Table} {c : String} (h : t.has c = true) :
    (t.register (.channel c)).channels =
      t.channels.map fun e => if e.1 == c then (e.1, e.2 ++ [t.nextId]) else e := by
  simp [register, h]

theorem channels_register_of_not_has {t : Table} {c : String} (h : t.has c = false) :
    (t.register (.channel c)).channels = t.channels ++ [(c, [t.nextId])] := by
  simp [register, h]

theorem keys_map_key (l : List (String × List SubscriptionId)) (c : String)
    (f : List SubscriptionId → List SubscriptionId) :
    (l.map fun e => if e.1 == c then (e.1, f e.2) else e).map (·.1) = l.map (·.1) := by
  rw [List.map_map]
  refine List.map_congr_left fun e _ => ?_
  simp only [Function.comp]
  split <;> rfl

theorem sound_register {t : Table} (h : t.Sound) (scope : Scope) : (t.register scope).Sound := by
  cases scope with
  | universal => exact ⟨h.keys, h.full⟩
  | channel c =>
    cases hc : t.has c
    · refine ⟨?_, ?_⟩ <;> rw [channels_register_of_not_has hc]
      · rw [List.map_append, List.nodup_append]
        refine ⟨h.keys, by simp, fun x hx y hy => ?_⟩
        rintro rfl
        have : x = c := by simpa using hy
        rw [this, ← has_iff_mem, hc] at hx
        exact Bool.false_ne_true hx
      · intro e he
        rcases List.mem_append.1 he with he | he
        · exact h.full e he
        · rw [List.mem_singleton.1 he]
          simp
    · refine ⟨?_, ?_⟩ <;> rw [channels_register_of_has hc]
      · rw [keys_map_key t.channels c (· ++ [t.nextId])]
        exact h.keys
      · intro e he
        obtain ⟨x, hx, rfl⟩ := List.mem_map.1 he
        split
        · simp
        · exact h.full x hx

/-- Registering appends to the list of its scope. -/
theorem listed_register (t : Table) (scope other : Scope) :
    (t.register scope).listed other =
      if other = scope then t.listed other ++ [t.nextId] else t.listed other := by
  cases scope with
  | universal => cases other <;> simp [register, listed, mailboxes]
  | channel c =>
    cases other with
    | universal => simp [register, listed]
    | channel d =>
      cases hc : t.has c
      · simp only [listed, mailboxes, channels_register_of_not_has hc, List.lookup_append,
          Scope.channel.injEq]
        by_cases hd : d = c
        · subst hd
          have hn : d ∉ t.channels.map (·.1) := by rw [← has_iff_mem, hc]; exact Bool.false_ne_true
          simp [lookup_eq_none_of_not_mem hn]
        · have hb : (d == c) = false := by simpa using hd
          simp [hd, hb, List.lookup_cons]
      · simp only [listed, mailboxes, channels_register_of_has hc, Scope.channel.injEq,
          lookup_map_key t.channels c d (· ++ [t.nextId])]
        by_cases hd : d = c
        · subst hd
          obtain ⟨v, hv⟩ := exists_lookup_of_mem ((has_iff_mem t d).1 hc)
          simp [hv]
        · simp [hd]

/-! ## Striking off -/

theorem channels_strike (t : Table) (id : SubscriptionId) (c : String) :
    (t.strike id (.channel c)).channels = (t.channels.map fun e =>
      if e.1 == c then (e.1, e.2.filter (· != id)) else e).filter fun e => !e.2.isEmpty := rfl

theorem sound_strike {t : Table} (h : t.Sound) (id : SubscriptionId) (scope : Scope) :
    (t.strike id scope).Sound := by
  cases scope with
  | universal => exact ⟨h.keys, h.full⟩
  | channel c =>
    refine ⟨?_, ?_⟩ <;> rw [channels_strike]
    · refine List.Nodup.sublist (List.filter_sublist.map _) ?_
      rw [keys_map_key t.channels c (·.filter (· != id))]
      exact h.keys
    · intro e he
      simpa using (List.mem_filter.1 he).2

/-- Striking a mailbox off takes it from the list of its scope. -/
theorem listed_strike {t : Table} (h : t.Sound) (id : SubscriptionId) (scope other : Scope) :
    (t.strike id scope).listed other =
      if other = scope then (t.listed other).filter (· != id) else t.listed other := by
  cases scope with
  | universal => cases other <;> simp [strike, listed, mailboxes]
  | channel c =>
    cases other with
    | universal => simp [strike, listed]
    | channel d =>
      have hk : ((t.channels.map fun e =>
          if e.1 == c then (e.1, e.2.filter (· != id)) else e).map (·.1)).Nodup := by
        rw [keys_map_key t.channels c (·.filter (· != id))]
        exact h.keys
      simp only [listed, mailboxes, channels_strike, Scope.channel.injEq]
      rw [lookup_filter hk (!·.isEmpty), lookup_map_key t.channels c d (·.filter (· != id))]
      cases hl : t.channels.lookup d with
      | none => simp
      | some v =>
        have hv : v.isEmpty = false := by simpa using h.full _ (mem_of_lookup hl)
        by_cases hd : d = c
        · subst hd
          cases hf : v.filter (· != id) <;> simp [hf, Option.filter_some]
        · simp [hd, hv, Option.filter_some]

end Table

/-! ## The backend -/

namespace Backend

variable {α : Type}

/-- Somebody listens under the scope. -/
def isOpen (b : Backend α) : Scope → Bool
  | .channel c => b.isSubscribed c
  | .universal => b.universal

/-- An event on the channel is queued, not held back. -/
def hears (b : Backend α) (c : String) : Bool := b.universal || b.isSubscribed c

theorem hears_iff (b : Backend α) (c : String) :
    b.hears c = true ↔ ∃ scope, scope.covers c = true ∧ b.isOpen scope = true := by
  constructor
  · intro h
    rcases Bool.or_eq_true_iff.1 h with h | h
    · exact ⟨.universal, rfl, h⟩
    · exact ⟨.channel c, beq_self_eq_true c, h⟩
  · rintro ⟨_ | _, hc, ho⟩
    · rw [← eq_of_beq hc]
      exact Bool.or_eq_true_iff.2 (.inr ho)
    · exact Bool.or_eq_true_iff.2 (.inl ho)

theorem isOpen_enqueue (b : Backend α) (es : List (Event α)) (scope : Scope) :
    (b.enqueue es).isOpen scope = b.isOpen scope := by
  cases scope <;> rfl

theorem isOpen_publish (b : Backend α) (e : Event α) (scope : Scope) :
    (b.publish e).isOpen scope = b.isOpen scope := by
  unfold publish
  split
  · exact isOpen_enqueue b [e] scope
  · cases scope <;> rfl

end Backend

namespace Bus

variable {α : Type}

/-- The first listener under a scope opens that scope. -/
theorem isOpen_open? (backend : Backend α) (scope other : Scope) :
    (open? backend scope).isOpen other = (other == scope || backend.isOpen other) := by
  cases scope with
  | universal => cases other <;> rfl
  | channel c =>
    cases other with
    | universal => rfl
    | channel d =>
      rw [open?, Backend.subscribe, Backend.isOpen_enqueue]
      by_cases hd : d = c
      · subst hd
        by_cases h : d ∈ backend.live <;> simp [Backend.isOpen, Backend.isSubscribed, h]
      · by_cases h : c ∈ backend.live <;> simp [Backend.isOpen, Backend.isSubscribed, h, hd]

/-- A scope that is open can be shut, and that shuts no other. -/
theorem shut_of_isOpen {backend : Backend α} {scope : Scope} (h : backend.isOpen scope = true) :
    ∃ backend' : Backend α, shut backend scope = .ok backend' ∧
      (∀ other, backend'.isOpen other = (other != scope && backend.isOpen other)) ∧
      backend'.missed = backend.missed ∧ backend'.queue = backend.queue := by
  cases scope with
  | universal =>
    refine ⟨{ backend with universal := false }, ?_, fun other => ?_, rfl, rfl⟩
    · rw [shut, Backend.universalUnsubscribe, if_pos (show backend.universal = true from h)]
    · cases other <;> rfl
  | channel c =>
    refine ⟨{ backend with live := backend.live.filter (· != c) }, ?_, fun other => ?_, rfl, rfl⟩
    · rw [shut, Backend.unsubscribe, if_pos (show backend.isSubscribed c = true from h)]
    · cases other with
      | universal => rfl
      | channel d =>
        by_cases hd : d = c <;> simp [Backend.isOpen, Backend.isSubscribed, hd]

end Bus
end Parley
