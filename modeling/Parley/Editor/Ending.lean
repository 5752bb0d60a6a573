/-!
# How programs end

A program ends with a status, or by a signal. Signals have numbers below 65; most have names.
-/

set_option autoImplicit false

namespace Parley

inductive Ending
  | exited (status : Nat)
  | killed (signal : Nat)
  deriving DecidableEq, Repr

namespace Signal

def named : List (Nat × String) :=
  [(1, "HUP"), (2, "INT"), (3, "QUIT"), (4, "ILL"), (5, "TRAP"), (6, "ABRT"), (7, "BUS"),
    (8, "FPE"), (9, "KILL"), (10, "USR1"), (11, "SEGV"), (12, "USR2"), (13, "PIPE"), (14, "ALRM"),
    (15, "TERM"), (16, "STKFLT"), (17, "CHLD"), (18, "CONT"), (19, "STOP"), (20, "TSTP"),
    (21, "TTIN"), (22, "TTOU"), (23, "URG"), (24, "XCPU"), (25, "XFSZ"), (26, "VTALRM"),
    (27, "PROF"), (28, "WINCH"), (29, "IO"), (30, "PWR"), (31, "SYS")]

/-- The signals for a program's own use. The first half is counted from the first of them, the other
half from the last. -/
def spare : List (Nat × String) :=
  (List.range 31).map fun k =>
    (34 + k,
      if k = 0 then "RTMIN"
      else if k < 16 then "RTMIN+" ++ toString k
      else if k < 30 then "RTMAX-" ++ toString (30 - k)
      else "RTMAX")

/-- The numbers below it are those of signals. -/
def bound : Nat := 65

def ofName? (s : String) : Option Nat :=
  if s ≠ "" && s.toList.all Char.isDigit then s.toNat?.filter (· < bound)
  else
    let capitals := String.ofList (s.toList.map Char.toUpper)
    ((named ++ spare).find? fun (_, name) => name = capitals).map Prod.fst

/-- The signals that a program does not notice unless it asks to; number zero only asks whether the
program is there. -/
def isUnnoticed (signal : Nat) : Bool := [0, 17, 18, 23, 28].contains signal

end Signal

def Ending.text : Ending → String
  | exited status => "exit status: " ++ toString status
  | killed signal =>
    match Signal.named.lookup signal with
    | some name => "signal: " ++ toString signal ++ " (SIG" ++ name ++ ")"
    | none => "signal: " ++ toString signal

/-- The status that stands for an ending where there are no signals. -/
def Ending.status : Ending → Nat
  | exited status => status
  | killed signal => 128 + signal

end Parley
