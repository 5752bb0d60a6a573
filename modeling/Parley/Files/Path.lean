import Parley.Text.Blank

/-!
# Paths

A path is a text whose parts are separated by slashes. Empty parts and single dots say nothing; a
single dot counts only at the very start of a path.
-/

set_option autoImplicit false

namespace Parley.Files

def parts (path : String) : List String := Text.splitOnChar '/' path

/-- The parts of a path in reverse, without those at its end that say nothing. -/
def trimParts : List String → List String
  | [] => []
  | [first] => [first]
  | part :: rest => if part = "" || part = "." then trimParts rest else part :: rest

def joinParts : List String → String
  | [""] => "/"
  | reversed => "/".intercalate reversed.reverse

/-- The path without its last part; `none` for the empty path and for the root. -/
def parent? (path : String) : Option String :=
  match trimParts (parts path).reverse with
  | [] | [""] => none
  | _ :: rest => some (joinParts (trimParts rest))

/-- The path and what is left of it as it loses its parts one by one, down to the empty path, which
is left out; `fuel` bounds the number of parts. -/
def ancestorsFrom : Nat → String → List String
  | 0, _ => []
  | fuel + 1, path =>
    if path = "" then []
    else path :: (parent? path).elim [] (ancestorsFrom fuel)

/-- The path and the paths of the directories it leads through, innermost first. -/
def ancestors (path : String) : List String := ancestorsFrom (path.length + 1) path

end Parley.Files
