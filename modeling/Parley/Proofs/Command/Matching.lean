import Mathlib.Logic.Basic
import Parley.Proofs.Session.Sending

/-!
# Arguments that match

Given values fit declared arguments if every argument that must be given has a value at its place,
every value that a literal argument governs is one of its words, and no value is left over (`Fits`).
The check accepts exactly the values that fit (`checkArguments_eq_ok_iff`). Of the others it blames
the leftmost argument that is missing or has a wrong value, and their number if there is none
(`checkArguments_eq_error_iff`). So a command runs its body exactly on the values that fit, and says
what is wrong with any others (`Command.runs_iff_fits`).
-/

set_option autoImplicit false

namespace Parley

variable {declared : List Argument} {values : List String} {f : ArgumentFault}

/-! ## The declared grammar -/

/-- An argument that is declared at position `i` governs the value at position `j`. -/
def Argument.Governs (a : Argument) (i j : Nat) : Prop := j = i ∨ a.repeatable = true ∧ i ≤ j

/-- No value is wrong, and none is left over; there may be too few. -/
structure Admits (declared : List Argument) (values : List String) : Prop where
  words : ∀ (i : Nat) (a : Argument), declared[i]? = some a → a.kind = .literal →
    ∀ (j : Nat) (v : String), a.Governs i j → values[j]? = some v → v ∈ a.descriptions
  number : values.length ≤ declared.length ∨ takesRest declared = true

/-- The values are what the arguments ask for. -/
structure Fits (declared : List Argument) (values : List String) : Prop
    extends Admits declared values where
  given : ∀ (i : Nat) (a : Argument), declared[i]? = some a → a.kind ≠ .optional →
    i < values.length

/-- What is wrong with the argument declared at position `i`: it has no value and must have one, or
it governs a value that is none of its words. The first such value counts. -/
inductive FaultAt (declared : List Argument) (values : List String) (i : Nat) :
    ArgumentFault → Prop
  | missing {a : Argument} (ha : declared[i]? = some a) (hkind : a.kind ≠ .optional)
    (hnone : values.length ≤ i) : FaultAt declared values i (.missing a)
  | mismatch {a : Argument} {j : Nat} {v : String} (ha : declared[i]? = some a)
    (hkind : a.kind = .literal) (hgoverns : a.Governs i j) (hv : values[j]? = some v)
    (hwrong : v ∉ a.descriptions)
    (hfirst : ∀ k < j, a.Governs i k → ∀ u, values[k]? = some u → u ∈ a.descriptions) :
    FaultAt declared values i (.mismatch a v)

/-- The text says what the fault is; if it is that of an argument, it names that. -/
inductive ArgumentFault.Tells : ArgumentFault → String → Prop
  | missing (a : Argument) : Tells (.missing a) ("Missing argument " ++ a.usage)
  | mismatch (a : Argument) (v : String) :
    Tells (.mismatch a v) ("Expected " ++ a.usage ++ ", got '" ++ v ++ "'")
  | surplus (most given : Nat) :
    Tells (.surplus most given)
      ("Expected at most " ++ toString most ++ " argument(s), got " ++ toString given)

theorem ArgumentFault.tells (f : ArgumentFault) : f.Tells f.message := by
  cases f with
  | missing a => exact .missing a
  | mismatch a v => exact .mismatch a v
  | surplus most given => exact .surplus most given

/-- What the values are blamed for: the fault of the leftmost argument that has one, and their
number if none has. -/
inductive Blamed (declared : List Argument) (values : List String) : ArgumentFault → Prop
  | argument {i : Nat} {f : ArgumentFault} (hf : FaultAt declared values i f)
    (hfirst : ∀ j < i, ∀ g, ¬FaultAt declared values j g) : Blamed declared values f
  | number (hnone : ∀ i f, ¬FaultAt declared values i f)
    (hmore : ¬(values.length ≤ declared.length ∨ takesRest declared = true)) :
    Blamed declared values (.surplus declared.length values.length)

/-! ## One argument -/

namespace Argument

variable {a : Argument} {i j k : Nat} {v : String}

theorem Governs.le (h : a.Governs i j) : i ≤ j := by
  rcases h with rfl | ⟨-, hle⟩
  · exact Nat.le_refl _
  · exact hle

theorem accepts_eq_false_iff : a.accepts v = false ↔ a.kind = .literal ∧ v ∉ a.descriptions := by
  simp [accepts]

/-- The values taken are those that are governed. -/
theorem getElem?_valuesAt :
    (a.valuesAt i values)[k]? = some v ↔ a.Governs i (i + k) ∧ values[i + k]? = some v := by
  unfold valuesAt Governs
  split
  · next hrepeatable => simp [hrepeatable]
  · next hrepeatable =>
    rw [List.getElem?_take, List.getElem?_drop]
    rcases k with _ | k <;> simp [hrepeatable]

theorem isEmpty_valuesAt : (a.valuesAt i values).isEmpty = true ↔ values.length ≤ i := by
  unfold valuesAt
  split <;> simp [List.take_eq_nil_iff]

/-- The first wrong value among those that are taken. -/
theorem find?_valuesAt (hkind : a.kind = .literal) :
    (a.valuesAt i values).find? (fun v => !a.accepts v) = some v ↔
      ∃ j, a.Governs i j ∧ values[j]? = some v ∧ v ∉ a.descriptions ∧
        ∀ k < j, a.Governs i k → ∀ u, values[k]? = some u → u ∈ a.descriptions := by
  have hwrong : ∀ u, (!a.accepts u) = true ↔ u ∉ a.descriptions := fun u => by
    rw [Bool.not_eq_true', accepts_eq_false_iff]
    exact and_iff_right hkind
  rw [List.find?_eq_some_iff_getElem, hwrong]
  constructor
  · rintro ⟨hnot, k, hk, hv, hfirst⟩
    obtain ⟨hgoverns, hvalue⟩ := getElem?_valuesAt.1 (List.getElem?_eq_some_iff.2 ⟨hk, hv⟩)
    refine ⟨i + k, hgoverns, hvalue, hnot, fun m hm hgoverns' u hu => ?_⟩
    obtain ⟨l, rfl⟩ := Nat.exists_eq_add_of_le hgoverns'.le
    obtain ⟨hl, rfl⟩ := List.getElem?_eq_some_iff.1 (getElem?_valuesAt.2 ⟨hgoverns', hu⟩)
    have hright := hfirst l (Nat.lt_of_add_lt_add_left hm)
    rwa [Bool.not_eq_true', ← Bool.not_eq_true, hwrong, not_not] at hright
  · rintro ⟨j, hgoverns, hv, hnot, hfirst⟩
    obtain ⟨k, rfl⟩ := Nat.exists_eq_add_of_le hgoverns.le
    obtain ⟨hk, hvk⟩ := List.getElem?_eq_some_iff.1 (getElem?_valuesAt.2 ⟨hgoverns, hv⟩)
    refine ⟨hnot, k, hk, hvk, fun l hl => ?_⟩
    obtain ⟨hgoverns', hu⟩ :=
      getElem?_valuesAt.1 (List.getElem?_eq_getElem (Nat.lt_trans hl hk))
    rw [Bool.not_eq_true', ← Bool.not_eq_true, hwrong, not_not]
    exact hfirst (i + l) (Nat.add_lt_add_left hl i) hgoverns' _ hu

/-- The check of one argument finds what is wrong with it. -/
theorem fault?_eq_some_iff (ha : declared[i]? = some a) :
    a.fault? i values = some f ↔ FaultAt declared values i f := by
  simp only [fault?]
  split
  · next hmissing =>
    obtain ⟨hempty, hkind⟩ := Bool.and_eq_true_iff.1 hmissing
    have hnone := isEmpty_valuesAt.1 hempty
    constructor
    · intro h
      cases h
      exact .missing ha (bne_iff_ne.1 hkind) hnone
    · intro h
      cases h with
      | missing hb _ _ => rw [Option.some.inj (ha.symm.trans hb)]
      | mismatch hb _ hgoverns hv _ _ =>
        cases ha.symm.trans hb
        have hlt := (List.getElem?_eq_some_iff.1 hv).1
        exact absurd hlt (Nat.not_lt.2 (Nat.le_trans hnone hgoverns.le))
  · next hmissing =>
    rw [Option.map_eq_some_iff]
    constructor
    · rintro ⟨v, hfind, rfl⟩
      have hkind : a.kind = .literal := by
        have hwrong := List.find?_some hfind
        exact (accepts_eq_false_iff.1 (by simpa using hwrong)).1
      obtain ⟨j, hgoverns, hv, hnot, hfirst⟩ := (find?_valuesAt hkind).1 hfind
      exact .mismatch ha hkind hgoverns hv hnot hfirst
    · intro h
      cases h with
      | missing hb hkind hnone =>
        cases ha.symm.trans hb
        have hempty := (isEmpty_valuesAt (a := a)).2 hnone
        exact absurd (Bool.and_eq_true_iff.2 ⟨hempty, bne_iff_ne.2 hkind⟩) hmissing
      | mismatch hb hkind hgoverns hv hnot hfirst =>
        cases ha.symm.trans hb
        exact ⟨_, (find?_valuesAt hkind).2 ⟨_, hgoverns, hv, hnot, hfirst⟩, rfl⟩

/-- One argument passes the check if it has a value or needs none, and no wrong one. -/
theorem fault?_eq_none_iff_right : a.fault? i values = none ↔
    (a.kind ≠ .optional → i < values.length) ∧
      (a.kind = .literal → ∀ j v, a.Governs i j → values[j]? = some v → v ∈ a.descriptions) := by
  simp only [fault?]
  split
  · next hmissing =>
    obtain ⟨hempty, hkind⟩ := Bool.and_eq_true_iff.1 hmissing
    refine ⟨nofun, fun h => ?_⟩
    exact absurd (h.1 (bne_iff_ne.1 hkind)) (Nat.not_lt.2 (isEmpty_valuesAt.1 hempty))
  · next hmissing =>
    have hgiven : a.kind ≠ .optional → i < values.length := fun hkind =>
      Nat.lt_of_not_le fun hle =>
        hmissing (Bool.and_eq_true_iff.2 ⟨isEmpty_valuesAt.2 hle, bne_iff_ne.2 hkind⟩)
    rw [Option.map_eq_none_iff, List.find?_eq_none, and_iff_right hgiven]
    constructor
    · intro h hkind j v hgoverns hv
      obtain ⟨k, rfl⟩ := Nat.exists_eq_add_of_le hgoverns.le
      have htaken := List.mem_of_getElem? (getElem?_valuesAt.2 ⟨hgoverns, hv⟩)
      refine not_not.1 fun hnot => h v htaken ?_
      rw [accepts_eq_false_iff.2 ⟨hkind, hnot⟩]
      rfl
    · intro h v hv hwrong
      obtain ⟨k, hk⟩ := List.mem_iff_getElem?.1 hv
      obtain ⟨hgoverns, hvalue⟩ := getElem?_valuesAt.1 hk
      obtain ⟨hkind, hnot⟩ := accepts_eq_false_iff.1 (by simpa using hwrong)
      exact hnot (h hkind _ v hgoverns hvalue)

theorem fault?_eq_none_iff (ha : declared[i]? = some a) :
    a.fault? i values = none ↔ ∀ g, ¬FaultAt declared values i g := by
  simp only [Option.eq_none_iff_forall_ne_some, ne_eq, fault?_eq_some_iff ha]

/-- An argument without a fault has a value if it must, and no wrong one. -/
theorem right_of_no_fault (ha : declared[i]? = some a)
    (h : ∀ g, ¬FaultAt declared values i g) :
    (a.kind ≠ .optional → i < values.length) ∧
      (a.kind = .literal → ∀ j v, a.Governs i j → values[j]? = some v → v ∈ a.descriptions) :=
  fault?_eq_none_iff_right.1 ((fault?_eq_none_iff ha).2 h)

end Argument

/-! ## All arguments -/

theorem FaultAt.lt {i : Nat} (h : FaultAt declared values i f) : i < declared.length := by
  cases h with
  | missing ha _ _ => exact (List.getElem?_eq_some_iff.1 ha).1
  | mismatch ha _ _ _ _ _ => exact (List.getElem?_eq_some_iff.1 ha).1

/-- Going through the arguments finds the fault of the leftmost one that has a fault. -/
theorem firstFault?_eq_some_iff {position : Nat} :
    firstFault? values position declared = some f ↔
      ∃ (i : Nat) (a : Argument), declared[i]? = some a ∧
        a.fault? (position + i) values = some f ∧
        ∀ j < i, ∀ b, declared[j]? = some b → b.fault? (position + j) values = none := by
  induction declared generalizing position with
  | nil => simp [firstFault?]
  | cons a rest ih =>
    rw [firstFault?]
    rcases ha : a.fault? position values with _ | g
    · simp only [ih]
      constructor
      · rintro ⟨i, b, hb, hf, hfirst⟩
        refine ⟨i + 1, b, hb, ?_, fun j hj c hc => ?_⟩
        · rwa [Nat.add_right_comm] at hf
        · rcases j with _ | j
          · cases hc
            exact ha
          · have hbefore := hfirst j (Nat.lt_of_succ_lt_succ hj) c hc
            rwa [Nat.add_right_comm] at hbefore
      · rintro ⟨i, b, hb, hf, hfirst⟩
        rcases i with _ | i
        · cases hb
          rw [Nat.add_zero, ha] at hf
          cases hf
        · refine ⟨i, b, hb, ?_, fun j hj c hc => ?_⟩
          · rwa [Nat.add_right_comm]
          · rw [Nat.add_right_comm]
            exact hfirst (j + 1) (Nat.succ_lt_succ hj) c hc
    · constructor
      · intro h
        cases h
        exact ⟨0, a, rfl, ha, fun j hj => absurd hj (Nat.not_lt_zero j)⟩
      · rintro ⟨i, b, hb, hf, hfirst⟩
        rcases i with _ | i
        · cases hb
          exact ha.symm.trans hf
        · have hzero := hfirst 0 (Nat.succ_pos i) a rfl
          rw [Nat.add_zero, ha] at hzero
          cases hzero

/-- The leftmost argument with a fault is found, and its fault. -/
theorem firstFault?_spec :
    firstFault? values 0 declared = some f ↔
      ∃ i, FaultAt declared values i f ∧ ∀ j < i, ∀ g, ¬FaultAt declared values j g := by
  rw [firstFault?_eq_some_iff]
  simp only [Nat.zero_add]
  constructor
  · rintro ⟨i, a, ha, hf, hfirst⟩
    refine ⟨i, (Argument.fault?_eq_some_iff ha).1 hf, fun j hj g hg => ?_⟩
    have hb := List.getElem?_eq_getElem hg.lt
    exact (Argument.fault?_eq_none_iff hb).1 (hfirst j hj _ hb) g hg
  · rintro ⟨i, hf, hfirst⟩
    have ha := List.getElem?_eq_getElem hf.lt
    refine ⟨i, _, ha, (Argument.fault?_eq_some_iff ha).2 hf, fun j hj b hb => ?_⟩
    exact (Argument.fault?_eq_none_iff hb).2 (hfirst j hj)

theorem firstFault?_eq_none : firstFault? values 0 declared = none ↔
    ∀ i f, ¬FaultAt declared values i f := by
  rw [firstFault?_eq_none_iff]
  simp only [Nat.zero_add]
  constructor
  · intro h i f hf
    exact (Argument.fault?_eq_none_iff (List.getElem?_eq_getElem hf.lt)).1 (h i hf.lt) f hf
  · intro h i hi
    exact (Argument.fault?_eq_none_iff (List.getElem?_eq_getElem hi)).2 (h i)

theorem surplus_iff : (!takesRest declared && declared.length < values.length) = true ↔
    ¬(values.length ≤ declared.length ∨ takesRest declared = true) := by
  simp [and_comm]

/-- **What the check complains of**: the leftmost fault, or the number of the values. -/
theorem checkArguments_eq_error_iff :
    checkArguments declared values = .error f ↔ Blamed declared values f := by
  unfold checkArguments
  split
  · next g hg =>
    obtain ⟨i, hi, hfirst⟩ := firstFault?_spec.1 hg
    constructor
    · intro h
      cases h
      exact .argument hi hfirst
    · intro h
      cases h with
      | argument hf hfirst' =>
        have hsame := hg.symm.trans (firstFault?_spec.2 ⟨_, hf, hfirst'⟩)
        rw [Option.some.inj hsame]
      | number hnone _ => exact absurd hi (hnone i g)
  · next hnone =>
    have hright := firstFault?_eq_none.1 hnone
    split
    · next hmore =>
      constructor
      · intro h
        cases h
        exact .number hright (surplus_iff.1 hmore)
      · intro h
        cases h with
        | argument hf _ => exact absurd hf (hright _ _)
        | number _ _ => rfl
    · next hmore =>
      refine ⟨nofun, fun h => ?_⟩
      cases h with
      | argument hf _ => exact absurd hf (hright _ _)
      | number _ hnumber => exact absurd (surplus_iff.2 hnumber) hmore

/-- Values fit exactly if no argument has a fault and there are not too many. -/
theorem fits_iff : Fits declared values ↔
    (∀ i f, ¬FaultAt declared values i f) ∧
      (values.length ≤ declared.length ∨ takesRest declared = true) := by
  constructor
  · refine fun h => ⟨fun i f hf => ?_, h.number⟩
    cases hf with
    | missing ha hkind hnone => exact absurd (h.given i _ ha hkind) (Nat.not_lt.2 hnone)
    | mismatch ha hkind hgoverns hv hwrong _ => exact hwrong (h.words i _ ha hkind _ _ hgoverns hv)
  · rintro ⟨hnone, hnumber⟩
    have hright := fun i a ha => Argument.right_of_no_fault (i := i) (a := a) ha (hnone i)
    exact ⟨⟨fun i a ha => (hright i a ha).2, hnumber⟩, fun i a ha => (hright i a ha).1⟩

/-- **What the check accepts**: the values that fit. -/
theorem checkArguments_eq_ok_iff :
    checkArguments declared values = .ok () ↔ Fits declared values := by
  rw [fits_iff, ← firstFault?_eq_none, ← not_not (a := _ ∨ _), ← surplus_iff]
  unfold checkArguments
  cases hfirst : firstFault? values 0 declared with
  | some f => simp
  | none => simp [-Bool.and_eq_true]

/-! ## Running a command -/

namespace Command

/-- What keeps values from fitting is reported, whatever the body of the command is. -/
theorem script_of_not_fits {c : Command} (h : ¬Fits c.arguments values) : ∃ f,
    Blamed c.arguments values f ∧ ∀ body d, ({ c with body } : Command).script d values =
      .say (f.message ++ "\nUsage: " ++ c.usage) .error := by
  cases hcheck : checkArguments c.arguments values with
  | ok u => exact absurd (checkArguments_eq_ok_iff.1 hcheck) h
  | error f =>
    refine ⟨f, checkArguments_eq_error_iff.1 hcheck, fun body d => ?_⟩
    simp only [script, hcheck]
    rfl

theorem script_of_fits {c : Command} (h : Fits c.arguments values) (d : Directory) :
    c.script d values = c.body d values := by
  simp only [script, checkArguments_eq_ok_iff.2 h]

/-- The one message that a command answers with if the values do not fit. -/
def refusal (c : Command) (text : String) : Outgoing :=
  { channel := "default"
    source := .server
    data := .text (text ++ "\nUsage: " ++ c.usage)
    extra := [("style", .text "error")] }

/-- **A command runs its body exactly on the values that fit**, and the check accepts exactly these.
On all others, whatever the body is, it publishes one message with the style of an error and then
goes on as a command that has succeeded. The message names the leftmost argument that is missing or
has a wrong value, if there is one, and gives the number of the values otherwise. Where a repeatable
argument stands makes no difference. -/
theorem runs_iff_fits (c : Command) (d : Directory) (values : List String) :
    (checkArguments c.arguments values = .ok () ↔ Fits c.arguments values) ∧
      ((∀ body, (Resolved.registered { c with body }).script d values = body d values) ↔
        Fits c.arguments values) ∧
      (¬Fits c.arguments values → ∃ f text, Blamed c.arguments values f ∧ f.Tells text ∧
        ∀ body caller (w : World),
          let script := (Resolved.registered { c with body }).script d values
          let told := w.send (.styled (f.message ++ "\nUsage: " ++ c.usage) .error)
          Stage.turn (.commanding script caller) w = (told, .commanding .finish caller) ∧
            Sends [(c.refusal text).sentIn w] w told ∧
            Stage.turn (.commanding .finish caller) told =
              Stage.commandDone caller (.ok ()) told) := by
  refine ⟨checkArguments_eq_ok_iff, ⟨fun hruns => ?_, fun h body => ?_⟩, fun h => ?_⟩
  · by_cases h : Fits c.arguments values
    · exact h
    · -- two different bodies would both be what is said about the values
      obtain ⟨f, -, hsame⟩ := script_of_not_fits h
      have hfinish := hruns fun _ _ => .finish
      rw [Resolved.script, hsame] at hfinish
      cases hfinish
  · exact script_of_fits (c := { c with body }) h d
  · obtain ⟨f, hblamed, hsame⟩ := script_of_not_fits h
    refine ⟨f, f.message, hblamed, f.tells, fun body caller w => ?_⟩
    simp only [Resolved.script, hsame]
    exact ⟨rfl, .send w _, rfl⟩

/-- A command that says its words again. -/
def echoCommand : Command where
  name := "echo"
  arguments := [{ kind := .literal, descriptions := ["loud", "quiet"] },
    { kind := .required, descriptions := ["word"], repeatable := true }]
  help := "Repeat words back"
  candidates _ _ position := literalWords [{ kind := .literal, descriptions := ["loud", "quiet"] },
    { kind := .required, descriptions := ["word"], repeatable := true }] position
  body _ values := .tell (" ".intercalate values)

theorem runs_iff_fits_whispered :
    Fits echoCommand.arguments ["quiet", "a", "b"] ∧
      (Resolved.registered echoCommand).script [] ["quiet", "a", "b"] = .tell "quiet a b" ∧
      ¬Fits echoCommand.arguments ["whisper", "x"] ∧
      ∀ caller (w : World),
        let script := (Resolved.registered echoCommand).script [] ["whisper", "x"]
        let refusal : Outgoing :=
          { channel := "default"
            source := .server
            data := .text "Expected loud|quiet, got 'whisper'\nUsage: /echo loud|quiet <word>..."
            extra := [("style", .text "error")] }
        ∃ told, Stage.turn (.commanding script caller) w = (told, .commanding .finish caller) ∧
          Sends [refusal.sentIn w] w told := by
  obtain ⟨hok, hbody, -⟩ := runs_iff_fits echoCommand [] ["quiet", "a", "b"]
  obtain ⟨hok', -, htold⟩ := runs_iff_fits echoCommand [] ["whisper", "x"]
  have hfits : Fits echoCommand.arguments ["quiet", "a", "b"] := hok.1 rfl
  have hcheck : checkArguments echoCommand.arguments ["whisper", "x"] =
      .error (.mismatch { kind := .literal, descriptions := ["loud", "quiet"] } "whisper") := by rfl
  have hnot : ¬Fits echoCommand.arguments ["whisper", "x"] := fun h => by
    have := hok'.2 h
    cases hcheck.symm.trans this
  obtain ⟨f, text, hblamed, htext, hall⟩ := htold hnot
  cases hcheck.symm.trans (checkArguments_eq_error_iff.2 hblamed)
  cases htext
  refine ⟨hfits, hbody.2 hfits echoCommand.body, hnot, fun caller w => ?_⟩
  obtain ⟨hturn, hsends, -⟩ := hall echoCommand.body caller w
  exact ⟨_, hturn, hsends⟩

end Command
end Parley
