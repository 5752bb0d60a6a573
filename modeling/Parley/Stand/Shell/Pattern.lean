import Parley.Files.Basic

/-!
# Patterns

In a pattern a star stands for any characters, a question mark for one, and brackets for one of
some. A character that is quoted stands for itself. A pattern that is a path stands for the paths
that match it, name by name.
-/

set_option autoImplicit false

namespace Parley.Shell

/-- Characters, each with whether it is quoted. -/
abbrev Field := List (Bool × Char)

def Field.text (f : Field) : String := String.ofList (f.map Prod.snd)

inductive Glyph
  | one (c : Char)
  | any
  | many
  /-- A character in one of the ranges, or in none of them. -/
  | among (negated : Bool) (ranges : List (Char × Char))

namespace Glyph

/-- The ranges up to a closing bracket. One that comes first is a character. -/
def ranges? : Bool → Field → Option (List (Char × Char) × Field)
  | _, [] => none
  | first, (quoted, c) :: rest =>
    if c = ']' && !quoted && !first then some ([], rest)
    else
      match rest with
      | (false, '-') :: (q, d) :: rest =>
        if d = ']' && !q then (ranges? false ((q, d) :: rest)).map fun (rs, r) =>
          ((c, c) :: ('-', '-') :: rs, r)
        else (ranges? false rest).map fun (rs, r) => ((c, d) :: rs, r)
      | rest => (ranges? false rest).map fun (rs, r) => ((c, c) :: rs, r)

/-- The pattern that characters make; `fuel` bounds their number. -/
def ofField : Nat → Field → List Glyph
  | 0, _ | _, [] => []
  | fuel + 1, (quoted, c) :: rest =>
    if quoted then .one c :: ofField fuel rest
    else
      match c with
      | '*' => .many :: ofField fuel rest
      | '?' => .any :: ofField fuel rest
      | '[' =>
        let (negated, inner) := match rest with
          | (false, '!') :: r | (false, '^') :: r => (true, r)
          | r => (false, r)
        match ranges? true inner with
        | some (rs, rest) => .among negated rs :: ofField fuel rest
        | none => .one '[' :: ofField fuel rest
      | c => .one c :: ofField fuel rest

def accepts : Glyph → Char → Bool
  | one d, c => c = d
  | any, _ | many, _ => true
  | among negated rs, c => rs.any (fun (a, b) => a ≤ c && c ≤ b) != negated

def stands : List Glyph → List Char → Bool
  | [], cs => cs.isEmpty
  | .many :: gs, [] => stands gs []
  | .many :: gs, c :: cs => stands gs (c :: cs) || stands (.many :: gs) cs
  | g :: gs, c :: cs => g.accepts c && stands gs cs
  | _ :: _, [] => false
termination_by gs cs => gs.length + cs.length

end Glyph

namespace Field

def glyphs (f : Field) : List Glyph := Glyph.ofField f.length f

def stands (f : Field) (s : List Char) : Bool := Glyph.stands f.glyphs s

def isPattern (f : Field) : Bool :=
  f.glyphs.any fun
    | .one _ => false
    | _ => true

def splitPath : Field → List Field
  | [] => [[]]
  | (quoted, c) :: rest =>
    match splitPath rest with
    | first :: others =>
      if c = '/' then [] :: first :: others else ((quoted, c) :: first) :: others
    | [] => [[(quoted, c)]]

/-- Whether a field stands for a name in a directory. A dot in front is matched by a dot only. -/
def standsForName (f : Field) (name : String) : Bool :=
  (name.toList.head? ≠ some '.' || f.head?.map Prod.snd = some '.') && f.stands name.toList

/-- The paths that go on from `base` through names that match. -/
def pathsFrom (t : Files.Tree) (base : String) : List Field → List String
  | [] => []
  | [last] =>
    if last.isPattern then (t.names base).filter last.standsForName |>.map (base ++ ·)
    else if t.holds (base ++ last.text) then [base ++ last.text]
    else []
  | f :: rest =>
    if f.isPattern then
      ((t.names base).filter f.standsForName).flatMap fun name =>
        pathsFrom t (base ++ name ++ "/") rest
    else pathsFrom t (base ++ f.text ++ "/") rest

/-- The paths that a field stands for: itself, if it is no pattern or no path matches. -/
def paths (t : Files.Tree) (f : Field) : List String :=
  if f.isPattern then
    match pathsFrom t "" f.splitPath with
    | [] => [f.text]
    | found => found
  else [f.text]

end Field
end Parley.Shell
