import Mathlib.Data.List.Induction
import Mathlib.Data.String.Basic
import Parley.Command.Builtin

/-!
# Registering commands

A registry holds the commands whose registration succeeded (`mem_commands_iff`), in the strict order
of their names (`sorted_ofCommands`). Both together leave it no choice: whatever order commands with
different names are registered in, the registry is the same (`ofCommands_perm`), and sorting its
commands by name, in whatever order they are gone through, gives them as it lists them
(`mergeSort_eq_visible`).

`order_irrelevant` says so of all that a registry answers, and that a hidden command can be run but
is not completed.
-/

set_option autoImplicit false

namespace Parley.Registry

open Words

variable {cs ds : List Command} {c d : Command} {r r' : Registry}

/-- One of the calls that register `cs`, one after the other, is for `c` and succeeds. -/
def Accepted (cs : List Command) (c : Command) : Prop :=
  ∃ before after, cs = before ++ c :: after ∧ ∃ r, (ofCommands before).register c = .ok r

/-! ## One call -/

/-- A call succeeds exactly if the name is not taken, and then the command takes its place. -/
theorem register_eq_ok_iff : r.register c = .ok r' ↔
    (∀ d ∈ r.commands, d.name ≠ c.name) ∧ r' = ⟨insertByName c r.commands⟩ := by
  unfold register
  split
  · next hany =>
    obtain ⟨d, hd, hname⟩ := List.any_eq_true.1 hany
    exact iff_of_false nofun fun h => h.1 d hd (eq_of_beq hname)
  · next hany =>
    have hfree : ∀ d ∈ r.commands, d.name ≠ c.name := fun d hd hname =>
      hany (List.any_eq_true.2 ⟨d, hd, beq_iff_eq.2 hname⟩)
    rw [Except.ok.injEq, and_iff_right hfree, eq_comm]

/-- A call fails exactly if the name is taken, and says which name that is. -/
theorem register_eq_error_iff :
    r.register c = .error (.duplicate c.name) ↔ ∃ d ∈ r.commands, d.name = c.name := by
  unfold register
  split
  · next hany =>
    obtain ⟨d, hd, hname⟩ := List.any_eq_true.1 hany
    exact iff_of_true rfl ⟨d, hd, eq_of_beq hname⟩
  · next hany =>
    refine iff_of_false nofun fun ⟨d, hd, hname⟩ => hany ?_
    exact List.any_eq_true.2 ⟨d, hd, beq_iff_eq.2 hname⟩

theorem mem_insertByName : d ∈ insertByName c r.commands ↔ d = c ∨ d ∈ r.commands :=
  (perm_insertByName c r.commands).mem_iff.trans List.mem_cons

/-- Commands in the strict order of their names. -/
def Sorted (cs : List Command) : Prop := cs.Pairwise fun c d => c.name < d.name

/-- A command with a new name is put in its place. -/
theorem sorted_insertByName (h : Sorted cs) (hnew : ∀ d ∈ cs, d.name ≠ c.name) :
    Sorted (insertByName c cs) := by
  induction cs with
  | nil => exact List.pairwise_singleton _ _
  | cons d cs ih =>
    obtain ⟨hd, hcs⟩ := List.pairwise_cons.1 h
    rw [insertByName]
    split
    · next hlt =>
      refine List.pairwise_cons.2 ⟨fun e he => ?_, h⟩
      rcases List.mem_cons.1 he with rfl | he
      · exact hlt
      · exact lt_trans hlt (hd e he)
    · next hlt =>
      have hdc : d.name < c.name :=
        lt_of_le_of_ne (not_lt.1 hlt) (hnew d List.mem_cons_self)
      refine List.pairwise_cons.2 ⟨fun e he => ?_, ih hcs fun e he =>
        hnew e (List.mem_cons_of_mem _ he)⟩
      rcases List.mem_cons.1 ((perm_insertByName c cs).mem_iff.1 he) with rfl | he
      · exact hdc
      · exact hd e he

/-! ## A sequence of calls -/

theorem ofCommands_concat (cs : List Command) (c : Command) :
    ofCommands (cs ++ [c]) = match (ofCommands cs).register c with
      | .ok r => r
      | .error _ => ofCommands cs := by
  rw [ofCommands, List.foldl_append]
  rfl

/-- The last call succeeds and adds its command, or fails and changes nothing. -/
theorem ofCommands_concat_cases (cs : List Command) (c : Command) :
    ((∀ d ∈ (ofCommands cs).commands, d.name ≠ c.name) ∧
        (∃ r, (ofCommands cs).register c = .ok r) ∧
        ofCommands (cs ++ [c]) = ⟨insertByName c (ofCommands cs).commands⟩) ∨
      (ofCommands cs).register c = .error (.duplicate c.name) ∧
        ofCommands (cs ++ [c]) = ofCommands cs := by
  rw [ofCommands_concat]
  by_cases hfree : ∀ d ∈ (ofCommands cs).commands, d.name ≠ c.name
  · have hok := register_eq_ok_iff.2 ⟨hfree, rfl⟩
    rw [hok]
    exact .inl ⟨hfree, ⟨_, rfl⟩, rfl⟩
  · have herror : (ofCommands cs).register c = .error (.duplicate c.name) :=
      register_eq_error_iff.2 (by simpa using hfree)
    rw [herror]
    exact .inr ⟨rfl, rfl⟩

theorem accepted_concat : Accepted (cs ++ [d]) c ↔
    Accepted cs c ∨ c = d ∧ ∃ r, (ofCommands cs).register d = .ok r := by
  constructor
  · rintro ⟨before, after, happ, hok⟩
    rcases List.eq_nil_or_concat after with rfl | ⟨rest, e, rfl⟩
    · obtain ⟨rfl, hlast⟩ := List.append_inj' happ rfl
      cases hlast
      exact .inr ⟨rfl, hok⟩
    · rw [List.concat_eq_append, ← List.cons_append, ← List.append_assoc] at happ
      obtain ⟨rfl, -⟩ := List.append_inj' happ rfl
      exact .inl ⟨before, rest, rfl, hok⟩
  · rintro (⟨before, after, rfl, hok⟩ | ⟨rfl, hok⟩)
    · exact ⟨before, after ++ [d], by rw [List.append_assoc, List.cons_append], hok⟩
    · exact ⟨cs, [], rfl, hok⟩

/-- **The registry holds what was registered.** -/
theorem mem_commands_iff : c ∈ (ofCommands cs).commands ↔ Accepted cs c := by
  induction cs using List.reverseRecOn with
  | nil =>
    refine iff_of_false List.not_mem_nil ?_
    rintro ⟨before, after, happ, -⟩
    cases before <;> cases happ
  | append_singleton cs d ih =>
    rw [accepted_concat, ← ih]
    rcases ofCommands_concat_cases cs d with ⟨-, hok, happ⟩ | ⟨herror, happ⟩
    · rw [happ, mem_insertByName, and_iff_left hok, or_comm]
    · rw [happ, herror]
      simp

/-- The registry keeps its commands in the strict order of their names. -/
theorem sorted_ofCommands (cs : List Command) : Sorted (ofCommands cs).commands := by
  induction cs using List.reverseRecOn with
  | nil => exact List.Pairwise.nil
  | append_singleton cs c ih =>
    rcases ofCommands_concat_cases cs c with ⟨hfree, -, happ⟩ | ⟨-, happ⟩
    · rw [happ]
      exact sorted_insertByName ih hfree
    · rwa [happ]

theorem Sorted.nodup (h : Sorted cs) : cs.Nodup := by
  refine List.Pairwise.imp ?_ h
  rintro c d hlt rfl
  exact lt_irrefl _ hlt

/-- Commands with one name are the same one. -/
theorem Sorted.eq_of_name (h : Sorted cs) (hc : c ∈ cs) (hd : d ∈ cs) (hname : c.name = d.name) :
    c = d := by
  induction cs with
  | nil => cases hc
  | cons e cs ih =>
    obtain ⟨he, hcs⟩ := List.pairwise_cons.1 h
    rcases List.mem_cons.1 hc with rfl | hc'
    · rcases List.mem_cons.1 hd with rfl | hd'
      · rfl
      · exact absurd hname (he d hd').ne
    · rcases List.mem_cons.1 hd with rfl | hd'
      · exact absurd hname (he c hc').ne'
      · exact ih hcs hc' hd'

/-- Sorted lists of the same commands are the same list. -/
theorem Sorted.eq_of_perm (hc : Sorted cs) (hd : Sorted ds) (h : cs.Perm ds) : cs = ds :=
  h.eq_of_pairwise (fun _ _ _ _ hlt hgt => absurd hgt (lt_asymm hlt)) hc hd

/-- The name of a command that was registered stands for it. -/
theorem resolve_of_accepted (h : Accepted cs c) :
    (ofCommands cs).resolve c.name = .registered c := by
  have hc := mem_commands_iff.2 h
  unfold resolve
  cases hfind : (ofCommands cs).commands.find? (·.name == c.name) with
  | none => exact absurd (beq_self_eq_true c.name) (List.find?_eq_none.1 hfind c hc)
  | some d =>
    have hname : d.name = c.name := eq_of_beq (List.find?_some hfind :)
    rw [(sorted_ofCommands cs).eq_of_name (List.mem_of_find?_eq_some hfind) hc hname]

/-! ## Names -/

theorem names_eq (r : Registry) : r.names = (r.commands.filter (!·.hidden)).map (·.name) := rfl

theorem mem_names_iff {n : String} :
    n ∈ (ofCommands cs).names ↔ ∃ c, Accepted cs c ∧ c.hidden = false ∧ c.name = n := by
  simp only [names_eq, List.mem_map, List.mem_filter, mem_commands_iff, Bool.not_eq_true', and_assoc]

theorem names_pairwise (cs : List Command) : (ofCommands cs).names.Pairwise (· < ·) :=
  List.pairwise_map.2 ((sorted_ofCommands cs).filter _)

/-- What is hidden is not among the names. -/
theorem not_mem_names (h : Accepted cs c) (hidden : c.hidden = true) :
    c.name ∉ (ofCommands cs).names := by
  rw [mem_names_iff]
  rintro ⟨d, hd, hvisible, hname⟩
  have hsame := (sorted_ofCommands cs).eq_of_name (mem_commands_iff.2 h) (mem_commands_iff.2 hd)
    hname.symm
  subst hsame
  cases hidden.symm.trans hvisible

theorem names_directory (r : Registry) : r.directory.names = r.names := by
  rw [directory, Directory.names, Directory.visible, List.filter_map, List.map_map]
  rfl

/-! ## The order of registration -/

/-- If no name comes twice, all calls succeed. -/
theorem perm_commands (h : (cs.map (·.name)).Nodup) : (ofCommands cs).commands.Perm cs := by
  induction cs using List.reverseRecOn with
  | nil => exact .refl _
  | append_singleton cs c ih =>
    rw [List.map_append, List.nodup_append] at h
    obtain ⟨hcs, -, hnew⟩ := h
    have hperm := ih hcs
    rcases ofCommands_concat_cases cs c with ⟨-, -, happ⟩ | ⟨herror, -⟩
    · rw [happ]
      exact (perm_insertByName c _).trans ((hperm.cons c).trans (List.perm_append_singleton c cs).symm)
    · obtain ⟨d, hd, hname⟩ := register_eq_error_iff.1 herror
      exact absurd hname (hnew _ (List.mem_map_of_mem (hperm.mem_iff.1 hd)) _
        (List.mem_singleton_self _))

/-- **The order of registration makes no difference.** -/
theorem ofCommands_perm (h : cs.Perm ds) (hnames : (cs.map (·.name)).Nodup) :
    ofCommands cs = ofCommands ds := by
  have hperm := (perm_commands hnames).trans
    (h.trans (perm_commands ((h.map _).nodup_iff.1 hnames)).symm)
  have hcommands := (sorted_ofCommands cs).eq_of_perm (sorted_ofCommands ds) hperm
  exact congrArg Registry.mk hcommands

/-- **The order in which commands are gone through makes no difference**: sorted by name, the visible
ones come as the registry lists them. -/
theorem mergeSort_eq_visible (hnodup : ds.Nodup) (h : ∀ c, c ∈ ds ↔ Accepted cs c) :
    (ds.filter (!·.hidden)).mergeSort (fun c d => decide (c.name ≤ d.name)) =
      (ofCommands cs).visible := by
  have hsorted := sorted_ofCommands cs
  have hperm : ds.Perm (ofCommands cs).commands :=
    (List.perm_ext_iff_of_nodup hnodup hsorted.nodup).2 fun c => (h c).trans mem_commands_iff.symm
  have hvisible : ((ds.filter (!·.hidden)).mergeSort (fun c d => decide (c.name ≤ d.name))).Perm
      (ofCommands cs).visible := (List.mergeSort_perm _ _).trans (hperm.filter _)
  have hmerged : ((ds.filter (!·.hidden)).mergeSort
      (fun c d => decide (c.name ≤ d.name))).Pairwise (fun c d => decide (c.name ≤ d.name)) :=
    List.pairwise_mergeSort
      (fun c d e hcd hde => by simpa using le_trans (by simpa using hcd) (by simpa using hde))
      (fun c d => by simpa using le_total c.name d.name) _
  have hlisted : (ofCommands cs).visible.Pairwise (fun c d => decide (c.name ≤ d.name)) :=
    (hsorted.filter _).imp fun hlt => decide_eq_true (le_of_lt hlt)
  refine hvisible.eq_of_pairwise (fun c d hc hd hle hge => ?_) hmerged hlisted
  have hc' := List.mem_of_mem_filter (hvisible.mem_iff.1 hc)
  exact hsorted.eq_of_name hc' (List.mem_of_mem_filter hd)
    (le_antisymm (of_decide_eq_true hle) (of_decide_eq_true hge))

/-! ## Completions -/

/-- The completions of a half-typed line when the commands know of each other what `d` says. -/
def completionsIn (r : Registry) (d : Directory) (line : String) :
    Except SyntaxFault (List Completion) :=
  match afterSigil? line with
  | none => .ok []
  | some rest =>
    match Cursor.ofLine rest with
    | .error f => .error f
    | .ok c =>
      .ok <| c.complete <| match c.preceding with
        | [] => r.names
        | name :: values =>
          match r.resolve name with
          | .registered command =>
            if command.hidden then [] else command.candidates d values (c.position - 1)
          | .invalid _ => []

theorem completionsIn_directory (r : Registry) (line : String) :
    r.completionsIn r.directory line = r.completions line := rfl

/-- The words before the cursor of a half-typed command line. -/
def wordsTyped? (line : String) : Option (List String) :=
  match (afterSigil? line).map Cursor.ofLine with
  | some (.ok c) => some c.preceding
  | _ => none

/-- What is completed is among the candidates. -/
theorem display_mem {cursor : Cursor} {ws : List String} {n : String}
    (h : n ∈ (cursor.complete ws).map (·.display)) : n ∈ ws := by
  obtain ⟨c, hc, rfl⟩ := List.mem_map.1 h
  obtain ⟨w, hw, rfl⟩ := List.mem_map.1 hc
  exact List.mem_of_mem_filter hw

theorem exists_cursor_of_wordsTyped? {line : String} {ws : List String}
    (h : wordsTyped? line = some ws) : ∃ rest cursor,
      afterSigil? line = some rest ∧ Cursor.ofLine rest = .ok cursor ∧ cursor.preceding = ws := by
  unfold wordsTyped? at h
  cases hrest : afterSigil? line with
  | none =>
    rw [hrest] at h
    cases h
  | some rest =>
    rw [hrest, Option.map_some] at h
    cases hcursor : Cursor.ofLine rest with
    | error f =>
      rw [hcursor] at h
      cases h
    | ok cursor =>
      rw [hcursor] at h
      exact ⟨rest, cursor, rfl, hcursor, Option.some.inj h⟩

/-- The name of a command is completed by the names of visible commands. -/
theorem mem_names_of_completionsIn {line n : String} {d : Directory} {found : List Completion}
    (htyped : wordsTyped? line = some []) (h : r.completionsIn d line = .ok found)
    (hn : n ∈ found.map (·.display)) : n ∈ r.names := by
  obtain ⟨rest, cursor, hrest, hcursor, hpreceding⟩ := exists_cursor_of_wordsTyped? htyped
  simp only [completionsIn, hrest, hcursor, hpreceding, Except.ok.injEq] at h
  subst h
  exact display_mem hn

/-- The arguments of a visible command are completed by its candidates. -/
theorem mem_candidates_of_completionsIn {line name n : String} {values : List String}
    {d : Directory} {found : List Completion} (hname : r.resolve name = .registered c)
    (htyped : wordsTyped? line = some (name :: values)) (h : r.completionsIn d line = .ok found)
    (hn : n ∈ found.map (·.display)) :
    c.hidden = false ∧ n ∈ c.candidates d values values.length := by
  obtain ⟨rest, cursor, hrest, hcursor, hpreceding⟩ := exists_cursor_of_wordsTyped? htyped
  simp only [completionsIn, hrest, hcursor, hpreceding, hname, Cursor.position, List.length_cons,
    Nat.add_sub_cancel, Except.ok.injEq] at h
  subst h
  have hmem := display_mem hn
  cases hhidden : c.hidden with
  | true =>
    rw [hhidden] at hmem
    cases hmem
  | false =>
    rw [hhidden] at hmem
    exact ⟨rfl, hmem⟩

/-- A hidden command is offered nowhere: its name is neither among those of commands nor among those
that `/help` can be asked about, and its own arguments have no completions. -/
theorem hidden_uncompleted (h : Accepted cs c) (hidden : c.hidden = true) {line : String}
    {found : List Completion} {d : Directory}
    (hfound : (ofCommands cs).completionsIn d line = .ok found) :
    (wordsTyped? line = some [] → c.name ∉ found.map (·.display)) ∧
      (d = (ofCommands cs).directory → Accepted cs Command.helpCommand →
        ∀ values, wordsTyped? line = some (Command.helpCommand.name :: values) →
          c.name ∉ found.map (·.display)) ∧
      ∀ values, wordsTyped? line = some (c.name :: values) → found = [] := by
  refine ⟨fun htyped hn => ?_, ?_, fun values htyped => ?_⟩
  · exact not_mem_names h hidden (mem_names_of_completionsIn htyped hfound hn)
  · rintro rfl hhelp values htyped hn
    obtain ⟨-, hmem⟩ :=
      mem_candidates_of_completionsIn (resolve_of_accepted hhelp) htyped hfound hn
    have hnames : c.name ∈ (ofCommands cs).directory.names := by
      simp only [Command.helpCommand] at hmem
      split at hmem
      · exact hmem
      · cases hmem
    rw [names_directory] at hnames
    exact not_mem_names h hidden hnames
  · rw [← List.map_eq_nil_iff (f := Completion.display), List.eq_nil_iff_forall_not_mem]
    intro n hn
    have hvisible := (mem_candidates_of_completionsIn (resolve_of_accepted h) htyped hfound hn).1
    cases hidden.symm.trans hvisible

/-- **What a registry answers does not depend on the order of registration.** A call that registers a
command fails exactly if an earlier one has registered its name, names that name, and leaves the
registry as it was. The names that are listed are those of the visible commands that were registered,
in strict order, and so come the commands themselves if they are sorted by name, in whatever order
they are gone through. Commands with different names may be registered in any order: every answer is
the same, whatever the commands know of each other. A hidden command can be run, but it is offered
nowhere and its arguments are not completed. -/
theorem order_irrelevant (cs : List Command) :
    (∀ c : Command,
        (∀ e, (ofCommands cs).register c = .error e ↔
          e = .duplicate c.name ∧ ∃ d, Accepted cs d ∧ d.name = c.name) ∧
        ∀ d, Accepted cs d → d.name = c.name →
          ofCommands (cs ++ [c]) = ofCommands cs ∧
            (ofCommands (cs ++ [c])).resolve c.name = .registered d) ∧
      ((ofCommands cs).names.Pairwise (· < ·) ∧
        (∀ n, n ∈ (ofCommands cs).names ↔ ∃ c, Accepted cs c ∧ c.hidden = false ∧ c.name = n) ∧
        ∀ ds : List Command, ds.Nodup → (∀ c, c ∈ ds ↔ Accepted cs c) →
          (ds.filter (!·.hidden)).mergeSort (fun c d => decide (c.name ≤ d.name)) =
            (ofCommands cs).visible) ∧
      (∀ ds, cs.Perm ds → (cs.map (·.name)).Nodup →
        (∀ name, (ofCommands cs).resolve name = (ofCommands ds).resolve name) ∧
          (ofCommands cs).names = (ofCommands ds).names ∧
          (ofCommands cs).helpLines = (ofCommands ds).helpLines ∧
          ∀ line, (ofCommands cs).completions line = (ofCommands ds).completions line ∧
            ∀ d, (ofCommands cs).completionsIn d line = (ofCommands ds).completionsIn d line) ∧
      ∀ c, Accepted cs c → c.hidden = true →
        (ofCommands cs).resolve c.name = .registered c ∧
          ∀ d line found, (ofCommands cs).completionsIn d line = .ok found →
            (wordsTyped? line = some [] → c.name ∉ found.map (·.display)) ∧
              (d = (ofCommands cs).directory → Accepted cs Command.helpCommand →
                ∀ values, wordsTyped? line = some (Command.helpCommand.name :: values) →
                  c.name ∉ found.map (·.display)) ∧
              ∀ values, wordsTyped? line = some (c.name :: values) → found = [] := by
  refine ⟨fun c => ⟨fun e => ?_, fun d hd hname => ?_⟩,
    ⟨names_pairwise cs, fun n => mem_names_iff, fun ds => mergeSort_eq_visible⟩,
    fun ds hperm hnames => ?_, fun c hc hidden => ⟨resolve_of_accepted hc, fun d line found =>
      hidden_uncompleted hc hidden⟩⟩
  · simp only [← mem_commands_iff, ← register_eq_error_iff]
    constructor
    · intro herror
      rcases ofCommands_concat_cases cs c with ⟨-, ⟨r, hok⟩, -⟩ | ⟨hduplicate, -⟩
      · cases hok.symm.trans herror
      · cases hduplicate.symm.trans herror
        exact ⟨rfl, hduplicate⟩
    · rintro ⟨rfl, herror⟩
      exact herror
  · have htaken := mem_commands_iff.2 hd
    rcases ofCommands_concat_cases cs c with ⟨hfree, -, -⟩ | ⟨-, hsame⟩
    · exact absurd hname (hfree d htaken)
    · rw [hsame, ← hname]
      exact ⟨rfl, resolve_of_accepted hd⟩
  · rw [ofCommands_perm hperm hnames]
    exact ⟨fun _ => rfl, rfl, rfl, fun _ => ⟨rfl, fun _ => rfl⟩⟩

/-- A hidden command with words for its argument. -/
def secretCommand : Command where
  name := "secret"
  arguments := [{ kind := .literal, descriptions := ["one", "two"] }]
  help := "Not listed"
  hidden := true
  candidates _ _ _ := ["one", "two"]
  body _ _ := .finish

theorem order_irrelevant_secret :
    let cs := [secretCommand, Command.clearCommand, Command.helpCommand]
    let ds := [Command.helpCommand, Command.clearCommand, secretCommand]
    (ofCommands cs).register secretCommand = .error (.duplicate "secret") ∧
      (ofCommands cs).names.Pairwise (· < ·) ∧
      (cs.map (·.name)).Nodup ∧ (ofCommands cs).helpLines = (ofCommands ds).helpLines ∧
      (ofCommands cs).resolve "secret" = .registered secretCommand ∧
      (ofCommands cs).completions "/help " = .ok [⟨"clear", "clear", 0⟩, ⟨"help", "help", 0⟩] ∧
      "secret" ∉ ["clear", "help"] ∧ (ofCommands cs).completions "/secret t" = .ok [] := by
  intro cs ds
  have hsecret : Accepted cs secretCommand :=
    ⟨[], [Command.clearCommand, Command.helpCommand], rfl, _, rfl⟩
  have hhelp : Accepted cs Command.helpCommand :=
    ⟨[secretCommand, Command.clearCommand], [], rfl, _, rfl⟩
  have hnames : (cs.map (·.name)).Nodup := by decide
  obtain ⟨hcalls, ⟨hsorted, -, -⟩, horder, hhidden⟩ := order_irrelevant cs
  obtain ⟨-, -, hlines, -⟩ := horder ds (List.reverse_perm cs).symm hnames
  obtain ⟨hresolve, huncompleted⟩ := hhidden secretCommand hsecret rfl
  have hoffered : (ofCommands cs).completions "/help " =
      .ok [⟨"clear", "clear", 0⟩, ⟨"help", "help", 0⟩] := rfl
  obtain ⟨-, hnowhere, -⟩ := huncompleted (ofCommands cs).directory "/help " _ hoffered
  have harguments : (ofCommands cs).completions "/secret t" = .ok [] := rfl
  obtain ⟨-, -, hnone⟩ := huncompleted (ofCommands cs).directory "/secret t" _ harguments
  have hempty := hnone [] rfl
  exact ⟨((hcalls secretCommand).1 _).2 ⟨rfl, _, hsecret, rfl⟩, hsorted, hnames, hlines, hresolve,
    hoffered, hnowhere rfl hhelp [] rfl, hempty ▸ harguments⟩

end Parley.Registry
