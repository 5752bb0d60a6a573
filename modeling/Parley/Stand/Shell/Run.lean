import Parley.Stand.Shell.Builtin
import Parley.Stand.Shell.Reader
import Parley.Stand.Shell.Sum

/-!
# Running scripts

Words are expanded and commands run with fuel, which bounds how deep commands lie in one another and
how often loops go round.
-/

set_option autoImplicit false

namespace Parley.Shell

/-- A command that fails ends the shell if that is asked for, unless it is a condition. -/
def checked (tested : Bool) (s : Shell) : Shell :=
  if s.flags.contains 'e' && !tested && s.status ≠ 0 && s.halt.isNone then s.exit s.status else s

/-- A loop takes notice of what its body asks for: whether it goes on, and with which shell. -/
def afterRound (s : Shell) : Bool × Shell :=
  match s.halt with
  | none => (true, s)
  | some (.leaving n) => (false, { s with halt := if n ≤ 1 then none else some (.leaving (n - 1)) })
  | some (.repeating n) =>
    if n ≤ 1 then (true, { s with halt := none })
    else (false, { s with halt := some (.repeating (n - 1)) })
  | some _ => (false, s)

/-- The status of a command that was not found or could not run. -/
def absent (s : Shell) (name : String) (f : Files.Fault) : Shell :=
  let reason := if f = .notFound || f = .notDirectory then "not found" else f.reason
  s.complain (if f = .denied && name.toList.contains '/' then 126 else 127) (name ++ ": " ++ reason)

structure Options where
  letters : List Char := []
  /-- The first letter that is no option. -/
  unknown : Option Char := none

/-- Splits options from the arguments after them. -/
def Options.read (o : Options) : List String → Options × List String
  | [] => (o, [])
  | argument :: rest =>
    match argument.toList with
    | ['-'] | ['-', '-'] => (o, rest)
    | '-' :: letters =>
      let o := { o with
        letters := o.letters ++ letters
        unknown := o.unknown <|> letters.find? (!"abcefimnsuvxIVE".toList.contains ·) }
      o.read rest
    | _ => (o, argument :: rest)

mutual

def expandPieces : Nat → Shell → Word → Shell × List Atom
  | 0, s, _ => (s, [])
  | fuel + 1, s, pieces =>
    pieces.foldl
      (fun (s, atoms) piece =>
        let (s, more) := expandPiece fuel s piece
        (s, atoms ++ more))
      (s, [])

def expandPiece : Nat → Shell → Piece → Shell × List Atom
  | 0, s, _ => (s, [])
  | fuel + 1, s, piece =>
    match piece with
    | .text quoted cs => (s, (if quoted then [.word] else []) ++ cs.map (.char quoted false))
    | .value quoted name form => expandValue fuel s quoted name form
    | .printed quoted c =>
      let child := runFork fuel s.intoPipe c
      let text := Text.decode (child.printed s.pipes.length)
      let kept := (text.toList.reverse.dropWhile (· = '\n')).reverse
      ({ s.join child with status := s.status, substituted := some child.status },
        Atom.ofValue quoted (String.ofList kept))
    | .sum quoted word =>
      let (s, atoms) := expandPieces fuel s word
      match Sum.evaluate? s.value? (joinAtoms atoms).text.toList with
      | some n => (s, Atom.ofValue quoted (toString n))
      | none => (s.refuse "arithmetic expression", [])

def expandValue : Nat → Shell → Bool → String → Form → Shell × List Atom
  | 0, s, _, _, _ => (s, [])
  | fuel + 1, s, quoted, name, form =>
    let found := s.value? name
    let plain :=
      if name = "@" || (name = "*" && !quoted) then Atom.ofValues quoted s.parameters
      else Atom.ofValue quoted (found.getD "")
    let missing := found.isNone && s.flags.contains 'u' && name ≠ "@" && name ≠ "*"
    match form with
    | .plain =>
      if missing then (s.refuse (name ++ ": parameter not set"), []) else (s, plain)
    | .length =>
      let size := if name = "@" || name = "*" then s.parameters.length
        else (found.getD "").utf8ByteSize
      (s, Atom.ofValue quoted (toString size))
    | .orElse colon fallback word =>
      let isSet := found.isSome && !(colon && found = some "")
      match fallback with
      | .use =>
        if isSet then (s, plain)
        else
          let (s, atoms) := expandPieces fuel s word
          (s, if quoted then .word :: atoms else loosen atoms)
      | .whenSet =>
        if isSet then
          let (s, atoms) := expandPieces fuel s word
          (s, if quoted then .word :: atoms else loosen atoms)
        else (s, if quoted then [.word] else [])
      | .assign =>
        if isSet then (s, plain)
        else
          let (s, atoms) := expandPieces fuel s word
          let value := (joinAtoms atoms).text
          (s.assign name value, Atom.ofValue quoted value)
      | .refuse =>
        if isSet then (s, plain)
        else
          let (s, atoms) := expandPieces fuel s word
          (s.refuse (name ++ ": " ++ (joinAtoms atoms).text), [])
    | .cut atEnd longest pattern =>
      let (s, atoms) := expandPieces fuel s pattern
      (s, Atom.ofValue quoted
        (String.ofList (cutOff atEnd longest (joinAtoms atoms) (found.getD "").toList)))

/-- Expands a word to one text. -/
def expandText : Nat → Shell → Word → Shell × String
  | 0, s, _ => (s, "")
  | fuel + 1, s, word =>
    let (s, atoms) := expandPieces fuel s word
    (s, (joinAtoms atoms).text)

/-- Expands words to any number of texts. -/
def expandWords : Nat → Shell → List Word → Shell × List String
  | 0, s, _ => (s, [])
  | fuel + 1, s, words =>
    words.foldl
      (fun (s, texts) word =>
        let (s, atoms) := expandPieces fuel s word
        let fields := splitFields s.separators none atoms
        (s, texts ++ if s.flags.contains 'f' then fields.map Field.text
          else fields.flatMap (Field.paths s.files)))
      (s, [])

/-- Redirects ports one after another; the first fault counts. -/
def redirectAll : Nat → Shell → List Redirect → Shell × Option String
  | 0, s, _ => (s, none)
  | _ + 1, s, [] => (s, none)
  | fuel + 1, s, .mk number kind target :: rest =>
    let (s, path) := expandText fuel s target
    match s.redirect number kind path with
    | .ok s => redirectAll fuel s rest
    | .error complaint => (s, some complaint)

/-- Runs a command; a condition is `tested`. -/
def run : Nat → Bool → Shell → Command → Shell
  | 0, _, s, _ => s
  | fuel + 1, tested, s, c =>
    if s.halt.isSome then s
    else
      match c with
      | .nothing => s
      | .simple assignments words redirects =>
        checked tested (runSimple fuel s assignments words redirects)
      | .pipe first second =>
        let left := runFork fuel s.intoPipe first
        let piped := left.printed s.pipes.length
        let s := { s.join left with status := s.status }
        let right := runFork fuel { s with input := piped } second
        checked tested { s.join right with input := s.input }
      | .negate c =>
        let s := run fuel true s c
        if s.halt.isSome then s else { s with status := if s.status = 0 then 1 else 0 }
      | .both first second =>
        let s := run fuel true s first
        if s.status = 0 then run fuel tested s second else s
      | .either first second =>
        let s := run fuel true s first
        if s.status = 0 then s else run fuel tested s second
      | .next first second => run fuel tested (run fuel tested s first) second
      | .background c =>
        { s.join (runFork fuel { s with input := [] } c) with status := 0, input := s.input }
      | .redirected c redirects =>
        match redirectAll fuel s redirects with
        | (t, some complaint) => checked tested ((s.join t).complain 2 complaint)
        | (t, none) =>
          let done := run fuel tested t c
          { done with
            ports := s.ports
            input := if redirects.any (fun | .mk n _ _ => n = 0) then s.input else done.input }
      | .subshell c => checked tested (s.join (runFork fuel s c))
      | .choice condition body otherwise =>
        let s := run fuel true s condition
        if s.halt.isSome then s
        else if s.status = 0 then run fuel tested s body
        else
          match otherwise with
          | .nothing => { s with status := 0 }
          | c => run fuel tested s c
      | .loop expected condition body =>
        let done := runLoop fuel tested { s with loops := s.loops + 1 } expected condition body 0
        { done with loops := s.loops }
      | .each name words body =>
        let (t, values) := match words with
          | some words => expandWords fuel s words
          | none => (s, s.parameters)
        if t.halt.isSome then t
        else
          let t := if values.isEmpty then { t with status := 0 } else t
          let done := runEach fuel tested { t with loops := s.loops + 1 } name values body
          { done with loops := s.loops }
      | .select word branches =>
        let (s, text) := expandText fuel s word
        runSelect fuel tested s text.toList branches
      | .define name body =>
        { s with
          functions := (name, body) :: s.functions.filter (·.1 != name)
          status := 0 }

/-- Runs a command in a copy of the shell, up to the end of the copy. -/
def runFork : Nat → Shell → Command → Shell
  | 0, s, _ => s
  | fuel + 1, s, c => close fuel (run fuel false s.fork c)

/-- Goes round a loop; `last` is the status of the last round. -/
def runLoop : Nat → Bool → Shell → Bool → Command → Command → Nat → Shell
  | 0, _, s, _, _, _, _ => s
  | fuel + 1, tested, s, expected, condition, body, last =>
    match afterRound (run fuel true s condition) with
    | (false, s) => s
    | (true, s) =>
      if (s.status = 0) = expected then
        match afterRound (run fuel tested s body) with
        | (false, s) => s
        | (true, s) => runLoop fuel tested s expected condition body s.status
      else { s with status := last }

def runEach : Nat → Bool → Shell → String → List String → Command → Shell
  | 0, _, s, _, _, _ => s
  | _ + 1, _, s, _, [], _ => s
  | fuel + 1, tested, s, name, value :: values, body =>
    match afterRound (run fuel tested (s.assign name value) body) with
    | (false, s) => s
    | (true, s) => runEach fuel tested s name values body

/-- Runs the first branch that a text matches. -/
def runSelect : Nat → Bool → Shell → List Char → List (List Word × Command) → Shell
  | 0, _, s, _, _ => s
  | _ + 1, _, s, _, [] => { s with status := 0 }
  | fuel + 1, tested, s, text, (patterns, c) :: branches =>
    let (s, matched) := patterns.foldl
      (fun (s, matched) pattern =>
        if matched then (s, true)
        else
          let (s, atoms) := expandPieces fuel s pattern
          (s, (joinAtoms atoms).stands text))
      (s, false)
    if !matched then runSelect fuel tested s text branches
    else
      match c with
      | .nothing => { s with status := 0 }
      | c => run fuel tested s c

def runSimple : Nat → Shell → List (String × Word) → List Word → List Redirect → Shell
  | 0, s, _, _, _ => s
  | fuel + 1, s, assignments, words, redirects =>
    let (s, texts) := expandWords fuel { s with substituted := none } words
    if s.halt.isSome then s
    else
      let isSpecial := texts.head?.any fun name =>
        (special.lookup name).isSome || ["exec", "eval", "."].contains name
      match redirectAll fuel s redirects with
      | (t, some complaint) =>
        let s := (s.join t).complain 2 complaint
        if isSpecial then s.exit 2 else s
      | (t, none) =>
        let assigned := assignments.foldl
          (fun s (name, word) =>
            let (s, value) := expandText fuel s word
            s.assign name value)
          t
        if assigned.halt.isSome then { assigned with ports := s.ports }
        else
          match texts with
          | [] =>
            { assigned with
              ports := s.ports, input := s.input, status := assigned.substituted.getD 0 }
          | ["exec"] => { assigned with status := 0 }
          | name :: arguments =>
            let lent := assigned.exported ++ assignments.map Prod.fst
            let done := dispatch fuel { assigned with exported := lent } true name arguments
            let done := if isSpecial then done
              else assignments.foldl
                (fun d (name, _) => d.restoreVariable name (s.bindings.lookup name)) done
            let done := { done with
              ports := s.ports
              exported := assigned.exported ++ done.exported.drop lent.length
              input := if redirects.any (fun | .mk n _ _ => n = 0) then s.input else done.input }
            serve fuel done

/-- Runs what signals that have arrived ask for. -/
def serve : Nat → Shell → Shell
  | 0, s => s
  | fuel + 1, s =>
    match s.arrived with
    | [] => s
    | signal :: rest =>
      let s := { s with arrived := rest }
      if s.halt.isSome then s
      else
        let status := s.status
        let done := runText fuel s ((s.traps.lookup signal).getD "")
        serve fuel (if done.halt.isSome then done else { done with status })

/-- Runs what has a name; `functions` says whether functions count. -/
def dispatch : Nat → Shell → Bool → String → List String → Shell
  | 0, s, _, _, _ => s
  | fuel + 1, s, functions, name, arguments =>
    match name, arguments with
    | "eval", _ => runText fuel { s with status := 0 } (" ".intercalate arguments)
    | "exec", program :: arguments =>
      match Programs.resolve s.files program with
      | .error f =>
        let s := s.absent program f
        (s.complain s.status ("exec: " ++ program)).exit s.status
      | .ok _ =>
        let s := dispatch fuel s false program arguments
        if s.halt.isSome then s else s.exit s.status
    | ".", [] => { s with status := 0 }
    | ".", path :: _ =>
      let found := if path.toList.contains '/' then s.files.readText path else .error .notFound
      match found with
      | .error _ => s.refuse (".: " ++ path ++ ": not found")
      | .ok text =>
        let s := runText fuel { s with status := 0 } text
        if s.halt = some .returned then { s with halt := none } else s
    | "command", "-v" :: program :: _ =>
      if (special.lookup program).isSome || (ordinary.lookup program).isSome ||
          (s.functions.lookup program).isSome then
        s.within (s.toProcess.print 1 (Text.toBytes (program ++ "\n")))
      else
        match Programs.resolve s.files program with
        | .ok name => s.within (s.toProcess.print 1 (Text.toBytes ("/usr/bin/" ++ name ++ "\n")))
        | .error _ => { s with status := 127 }
    | "command", program :: arguments => dispatch fuel s false program arguments
    | "command", [] => { s with status := 0 }
    | name, arguments =>
      match special.lookup name with
      | some act => act s arguments
      | none =>
        match if functions then s.functions.lookup name else none with
        | some body =>
          let done := run fuel false
            { s with parameters := arguments, loops := 0, locals := some [] } body
          let done := (done.locals.getD []).reverse.foldl
            (fun s (name, old) => s.restoreVariable name old) done
          { done with
            parameters := s.parameters
            loops := s.loops
            locals := s.locals
            halt := if done.halt = some .returned then none else done.halt }
        | none =>
          match ordinary.lookup name with
          | some act => act s arguments
          | none =>
            match Programs.resolve s.files name with
            | .error f => s.absent name f
            | .ok base =>
              match Programs.installed.lookup base with
              | some program => Builtin.ofProgram program s arguments
              | none =>
                let child := start fuel s.toProcess (s.id + 1) s.environment arguments
                let here := s.files.here
                let s := s.within child.toProcess
                { s with
                  files := { s.files with here }
                  ports := s.ports
                  status := match child.halt with
                    | some (.ended e) => e.status
                    | _ => child.status }

/-- Runs a text in the shell, line by line. A line that is no command ends the shell. -/
def runText : Nat → Shell → String → Shell
  | 0, s, _ => s
  | fuel + 1, s, text => runLines fuel s text.toList

def runLines : Nat → Shell → List Char → Shell
  | 0, s, _ => s
  | _ + 1, s, [] => s
  | fuel + 1, s, cs =>
    if s.halt.isSome then s
    else
      match readLine (cs.length + 1) cs with
      | none => s.refuse "Syntax error"
      | some (c, rest) => runLines fuel (run fuel false s c) rest

def close : Nat → Shell → Shell
  | 0, s => s
  | fuel + 1, s =>
    match s.halt with
    | some (.ended (.killed _)) => s
    | halt =>
      let status := match halt with
        | some (.ended e) => e.status
        | _ => s.status
      let s := { s with status }
      let ended := { s with halt := some (.ended (.exited status)) }
      match s.traps.lookup 0 with
      | none => ended
      | some action =>
        let done := runText fuel { s with halt := none, traps := s.traps.filter (·.1 != 0) } action
        match done.halt with
        | some (.ended _) => done
        | _ => { done with status := s.status, halt := ended.halt }

/-- Runs a shell of its own, with the variables it is given, on arguments: a command line after the
option `-c`, or a file, or what can be read. -/
def start : Nat → Process → Nat → List (String × String) → List String → Shell
  | 0, p, _, _, _ => { toProcess := p }
  | fuel + 1, p, id, environment, arguments =>
    let s : Shell := { p with
      id, bindings := environment, exported := environment.map Prod.fst, status := 0 }
    let (o, rest) := Options.read {} arguments
    let s := { s with flags := o.letters.filter ['e', 'f', 'u'].contains }
    let idle := o.letters.contains 'n'
    match o.unknown with
    | some c => s.refuse ("Illegal option -" ++ String.singleton c)
    | none =>
      if o.letters.contains 'c' then
        match rest with
        | [] => s.refuse "-c requires an argument"
        | text :: rest =>
          let s := { s with name := rest.head?.getD s.name, parameters := rest.drop 1 }
          if idle then s.exit 0 else close fuel (runText fuel s text)
      else
        match rest with
        | [] =>
          let text := Text.decode s.input
          if idle then s.exit 0 else close fuel (runText fuel { s with input := [] } text)
        | path :: parameters =>
          match s.files.read path with
          | .error .isDirectory => s.exit 0
          | .error f => s.refuse (openFault "open" "No such file" path f)
          | .ok content =>
            let text := Text.decode content
            let s := { s with name := path, parameters }
            if idle then s.exit 0 else close fuel (runText fuel s text)

end

end Parley.Shell
