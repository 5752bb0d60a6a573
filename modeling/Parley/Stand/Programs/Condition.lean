import Parley.Stand.Programs.Process

/-!
# Conditions

The program `test` decides a condition given by its arguments: about a text, about two texts or two
numbers, about what a path leads to, or made of other conditions.
-/

set_option autoImplicit false

namespace Parley.Programs

def plainInt? (s : String) : Option Int :=
  let blank := fun c : Char => c = ' ' || c = '\t' || c = '\n'
  let cs := ((s.toList.dropWhile blank).reverse.dropWhile blank).reverse
  match cs with
  | '-' :: d :: ds => if (d :: ds).all Char.isDigit then (String.ofList cs).toInt? else none
  | '+' :: d :: ds => if (d :: ds).all Char.isDigit then (String.ofList (d :: ds)).toInt? else none
  | d :: ds => if (d :: ds).all Char.isDigit then (String.ofList cs).toInt? else none
  | [] => none

namespace Condition

/-- What a letter after a dash says about the argument after it. -/
def single? (p : Process) : String → Option (String → Bool)
  | "-n" => some (· ≠ "")
  | "-z" => some (· = "")
  | "-e" | "-r" | "-w" => some p.files.holds
  | "-f" => some fun path => p.files.holds path && !p.files.isDirectory path
  | "-d" | "-x" => some p.files.isDirectory
  | "-s" => some fun path =>
    match p.files.read path with
    | .ok content => !content.isEmpty
    | .error f => f = .isDirectory
  | "-h" | "-L" | "-b" | "-c" | "-p" | "-S" | "-t" | "-u" | "-g" | "-k" => some fun _ => false
  | _ => none

def comparing (holds : Int → Int → Bool) (a b : String) : Option Bool := do
  return holds (← plainInt? a) (← plainInt? b)

/-- What an operator says about the arguments on its sides. -/
def double? (p : Process) : String → Option (String → String → Option Bool)
  | "=" => some fun a b => some (a = b)
  | "!=" => some fun a b => some (a ≠ b)
  | "<" => some fun a b => some (a < b)
  | ">" => some fun a b => some (b < a)
  | "-eq" => some (comparing (· = ·))
  | "-ne" => some (comparing (· ≠ ·))
  | "-lt" => some (comparing (· < ·))
  | "-le" => some (comparing (· ≤ ·))
  | "-gt" => some (comparing (· > ·))
  | "-ge" => some (comparing (· ≥ ·))
  | "-ef" => some fun a b =>
    some ((p.files.find a).toOption.map Prod.fst = (p.files.find b).toOption.map Prod.fst &&
      p.files.holds a)
  | _ => none

mutual

/-- Conditions of which one must hold, and the arguments after them. -/
def anyOf (p : Process) : Nat → List String → Option (Bool × List String)
  | 0, _ => none
  | fuel + 1, args =>
    match allOf p fuel args with
    | some (a, "-o" :: rest) => (anyOf p fuel rest).map fun (b, r) => (a || b, r)
    | found => found

def allOf (p : Process) : Nat → List String → Option (Bool × List String)
  | 0, _ => none
  | fuel + 1, args =>
    match simple p fuel args with
    | some (a, "-a" :: rest) => (allOf p fuel rest).map fun (b, r) => (a && b, r)
    | found => found

def simple (p : Process) : Nat → List String → Option (Bool × List String)
  | 0, _ => none
  | fuel + 1, args =>
    match args with
    | a :: op :: b :: rest =>
      match double? p op with
      | some holds => (holds a b).map (·, rest)
      | none => unary fuel args
    | args => unary fuel args
where
  unary : Nat → List String → Option (Bool × List String)
    | fuel, "!" :: b :: rest => (simple p fuel (b :: rest)).map fun (b, r) => (!b, r)
    | fuel, "(" :: b :: rest =>
      match anyOf p fuel (b :: rest) with
      | some (b, ")" :: rest) => some (b, rest)
      | _ => none
    | _, a :: b :: rest =>
      match single? p a with
      | some holds => some (holds b, rest)
      | none => some (a ≠ "", b :: rest)
    | _, [a] => some (a ≠ "", [])
    | _, [] => none

end

/-- Whether a condition holds; `none` if it means nothing. Few arguments are read by their number. -/
def holds? (p : Process) (args : List String) : Option Bool :=
  match args with
  | [] => some false
  | [a] => some (a ≠ "")
  | ["!", a] => some (a = "")
  | args =>
    match anyOf p (4 * args.length + 4) args with
    | some (b, []) => some b
    | _ => none

end Condition

/-- Decides a condition: the status is 0 if it holds and 1 if not. -/
def test : Program := fun p arguments =>
  match Condition.holds? p arguments with
  | some true => p
  | some false => { p with status := 1 }
  | none => p.fail 2 "test: unexpected operator"

/-- The same, with a bracket after the condition. -/
def bracket : Program := fun p arguments =>
  if arguments.getLast? = some "]" then test p arguments.dropLast
  else p.fail 2 "[: missing ]"

end Parley.Programs
