/-!
# Declared arguments

What a command says about one of its arguments, the usage text that shows it, and the check of the
arguments a command is given against the ones it declares. `firstFault?_eq_none_iff` says that the
check looks at every declared argument.
-/

set_option autoImplicit false

namespace Parley

/-- Whether an argument must be given, may be left out, or must be one of fixed words. -/
inductive ArgumentKind
  | required
  | optional
  /-- One of the argument's descriptions, word for word. -/
  | literal
  deriving DecidableEq, Repr

structure Argument where
  kind : ArgumentKind
  /-- Alternative descriptions; of a literal, its words. -/
  descriptions : List String
  /-- Takes all remaining values; meant for the last argument. -/
  repeatable : Bool := false
  deriving DecidableEq, Repr

namespace Argument

def usage (a : Argument) : String :=
  let alternatives := "|".intercalate a.descriptions
  let base := match a.kind with
    | .required => "<" ++ alternatives ++ ">"
    | .optional => "[" ++ alternatives ++ "]"
    | .literal => alternatives
  if a.repeatable then base ++ "..." else base

def accepts (a : Argument) (value : String) : Bool :=
  a.kind != .literal || a.descriptions.contains value

/-- The values an argument at `position` takes from the given ones. -/
def valuesAt (a : Argument) (position : Nat) (values : List String) : List String :=
  if a.repeatable then values.drop position else (values.drop position).take 1

end Argument

/-- The argument that governs the value at `position`: the one declared there, or a repeatable last
one. -/
def argumentAt (declared : List Argument) (position : Nat) : Option Argument :=
  declared[position]?.or (declared.getLast?.filter (·.repeatable))

def takesRest (declared : List Argument) : Bool := declared.getLast?.any (·.repeatable)

inductive ArgumentFault
  | missing (argument : Argument)
  | mismatch (argument : Argument) (value : String)
  | surplus (most given : Nat)
  deriving DecidableEq, Repr

def ArgumentFault.message : ArgumentFault → String
  | missing a => "Missing argument " ++ a.usage
  | mismatch a value => "Expected " ++ a.usage ++ ", got '" ++ value ++ "'"
  | surplus most given =>
    "Expected at most " ++ toString most ++ " argument(s), got " ++ toString given

def Argument.fault? (a : Argument) (position : Nat) (values : List String) : Option ArgumentFault :=
  let own := a.valuesAt position values
  if own.isEmpty && a.kind != .optional then some (.missing a)
  -- a value that does not fit is named; of several the first
  else (own.find? (fun v => !a.accepts v)).map (.mismatch a)

/-- The first fault of the arguments declared from `position` on. -/
def firstFault? (values : List String) : Nat → List Argument → Option ArgumentFault
  | _, [] => none
  | position, a :: rest =>
    match a.fault? position values with
    | some f => some f
    | none => firstFault? values (position + 1) rest

theorem firstFault?_eq_none_iff {values : List String} {position : Nat} {declared : List Argument} :
    firstFault? values position declared = none ↔
      ∀ i (h : i < declared.length), declared[i].fault? (position + i) values = none := by
  induction declared generalizing position with
  | nil => simp [firstFault?]
  | cons a rest ih =>
    rw [firstFault?]
    rcases ha : a.fault? position values with _ | f
    · simp only [ih]
      constructor
      · intro h i hi
        rcases i with _ | i
        · exact ha
        · have := h i (by simpa using hi)
          rwa [Nat.add_right_comm, Nat.add_assoc] at this
      · intro h i hi
        have := h (i + 1) (by simpa using hi)
        rwa [← Nat.add_assoc, Nat.add_right_comm] at this
    · simp only [reduceCtorEq, false_iff]
      intro h
      have := h 0 (by simp)
      simp [ha] at this

/-- Checks values against declared arguments: a fault of an argument comes before too many
values. -/
def checkArguments (declared : List Argument) (values : List String) : Except ArgumentFault Unit :=
  match firstFault? values 0 declared with
  | some f => .error f
  | none =>
    if !takesRest declared && declared.length < values.length then
      .error (.surplus declared.length values.length)
    else .ok ()

end Parley
