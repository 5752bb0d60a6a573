import Parley.Files.Path
import Parley.Text.Bytes

/-!
# Files

A tree of directories and files, and what can be done in it by path. A path leads from name to name;
what its last name stands in must be a directory that is there. Every operation that fails says why,
and one that can fail half way gives the tree as it is then.
-/

set_option autoImplicit false

namespace Parley.Files

inductive Fault
  | notFound
  | denied
  | alreadyExists
  | notDirectory
  | isDirectory
  | nameTooLong
  /-- A path with a zero character in it. -/
  | zeroInPath
  /-- What a file holds is no text. -/
  | notText
  deriving DecidableEq, Repr

def Fault.reason : Fault → String
  | notFound => "No such file or directory"
  | denied => "Permission denied"
  | alreadyExists => "File exists"
  | notDirectory => "Not a directory"
  | isDirectory => "Is a directory"
  | nameTooLong => "File name too long"
  | zeroInPath => "file name contained an unexpected NUL byte"
  | notText => "stream did not contain valid UTF-8"

def Fault.number? : Fault → Option Nat
  | notFound => some 2
  | denied => some 13
  | alreadyExists => some 17
  | notDirectory => some 20
  | isDirectory => some 21
  | nameTooLong => some 36
  | zeroInPath | notText => none

def Fault.message (f : Fault) : String :=
  match f.number? with
  | some n => f.reason ++ " (os error " ++ toString n ++ ")"
  | none => f.reason

inductive Entry
  | directory
  | file (content : List UInt8)
  deriving DecidableEq, Repr

/-- The names on the way from the root to an entry. -/
abbrev Location := List String

structure Tree where
  entries : List (Location × Entry) := []
  /-- The directory that a path starts from, unless it starts with a slash. -/
  here : Location := []

/-- What a path asks for when all but its last name has been followed. -/
inductive Aim
  /-- A directory that is there: the path ends with dots, or leads to the root. -/
  | directory (l : Location)
  /-- A name in a directory; `slash` if the path goes on with a slash. -/
  | name (l : Location) (name : String) (slash : Bool)
  deriving DecidableEq, Repr

namespace Tree

/-! ## Entries -/

def entryAt? (t : Tree) (l : Location) : Option Entry :=
  if l.isEmpty then some .directory else t.entries.lookup l

def erase (t : Tree) (l : Location) : Tree :=
  { t with entries := t.entries.filter fun (k, _) => k != l }

def put (t : Tree) (l : Location) (e : Entry) : Tree :=
  { t with entries := (l, e) :: (t.erase l).entries }

theorem find_put_self (t : Tree) {l : Location} (e : Entry) (h : l ≠ []) :
    entryAt? (t.put l e) l = some e := by
  simp [put, entryAt?, List.isEmpty_iff, h]

/-! ## Following paths -/

def maxNameSize : Nat := 255

def maxPathSize : Nat := 4095

/-- What a name in a directory stands for. -/
def look (t : Tree) (l : Location) (name : String) : Except Fault Entry :=
  if maxNameSize < name.utf8ByteSize then .error .nameTooLong
  else
    match t.entryAt? (l ++ [name]) with
    | some e => .ok e
    | none => .error .notFound

/-- The directory that names lead to, one after another, from a directory. Two dots lead back; the
root is its own parent. -/
def descend (t : Tree) (l : Location) : List String → Except Fault Location
  | [] => .ok l
  | name :: rest =>
    if name = "." then t.descend l rest
    else if name = ".." then t.descend l.dropLast rest
    else
      match t.look l name with
      | .error f => .error f
      | .ok (.file _) => .error .notDirectory
      | .ok .directory => t.descend (l ++ [name]) rest

/-- What a path asks for. The empty path asks for nothing that is there. -/
def aim (t : Tree) (path : String) : Except Fault Aim :=
  if path.toList.contains '\x00' then .error .zeroInPath
  else if maxPathSize < path.utf8ByteSize then .error .nameTooLong
  else
    -- slashes in a row count as one, and one in front leads to the root
    let start := if (parts path).head? = some "" then [] else t.here
    let names := (parts path).filter (· ≠ "")
    match names.getLast? with
    | none => if path = "" then .error .notFound else .ok (.directory start)
    | some last =>
      match t.descend start names.dropLast with
      | .error f => .error f
      | .ok l =>
        if last = "." then .ok (.directory l)
        else if last = ".." then .ok (.directory l.dropLast)
        else .ok (.name l last ((parts path).getLast? = some ""))

/-- The entry that a path leads to. Only to a directory does a slash at its end lead. -/
def find (t : Tree) (path : String) : Except Fault (Location × Entry) :=
  match t.aim path with
  | .error f => .error f
  | .ok (.directory l) => .ok (l, .directory)
  | .ok (.name l name slash) =>
    match t.look l name with
    | .error f => .error f
    | .ok .directory => .ok (l ++ [name], .directory)
    | .ok (.file content) =>
      if slash then .error .notDirectory else .ok (l ++ [name], .file content)

def holds (t : Tree) (path : String) : Bool :=
  match t.find path with
  | .ok _ => true
  | .error _ => false

def isDirectory (t : Tree) (path : String) : Bool :=
  match t.find path with
  | .ok (_, .directory) => true
  | _ => false

/-- The names in the directory that a path leads to, in order. The empty path stands for where paths
start from. -/
def names (t : Tree) (path : String) : List String :=
  match t.find (if path = "" then "." else path) with
  | .ok (l, .directory) =>
    (t.entries.filterMap fun (k, _) => if k.dropLast = l then k.getLast? else none).mergeSort
  | _ => []

/-! ## Files -/

def read (t : Tree) (path : String) : Except Fault (List UInt8) :=
  match t.find path with
  | .error f => .error f
  | .ok (_, .file content) => .ok content
  | .ok (_, .directory) => .error .isDirectory

def readText (t : Tree) (path : String) : Except Fault String :=
  match t.read path with
  | .error f => .error f
  | .ok content =>
    match Text.ofBytes? content with
    | some s => .ok s
    | none => .error .notText

/-- Writes a file, which may be a new one in a directory that exists. No file has a slash at the end
of its path. -/
def write (t : Tree) (path : String) (content : List UInt8) : Except Fault Tree :=
  match t.aim path with
  | .error f => .error f
  | .ok (.directory _) | .ok (.name _ _ true) => .error .isDirectory
  | .ok (.name l name false) =>
    match t.look l name with
    | .ok .directory => .error .isDirectory
    | .ok (.file _) | .error .notFound => .ok (t.put (l ++ [name]) (.file content))
    | .error f => .error f

def remove (t : Tree) (path : String) : Except Fault Tree :=
  match t.find path with
  | .error f => .error f
  | .ok (l, .file _) => .ok (t.erase l)
  | .ok (_, .directory) => .error .isDirectory

/-! ## Directories -/

def makeDirectory (t : Tree) (path : String) : Except Fault Tree :=
  match t.aim path with
  | .error f => .error f
  | .ok (.directory _) => .error .alreadyExists
  | .ok (.name l name _) =>
    match t.look l name with
    | .ok _ => .error .alreadyExists
    | .error .notFound => .ok (t.put (l ++ [name]) .directory)
    | .error f => .error f

/-- A fault in making a directory does not matter if the directory is there. -/
def forgive (t : Tree) (path : String) (f : Fault) : Tree × Except Fault Unit :=
  if t.isDirectory path then (t, .ok ()) else (t, .error f)

/-- Makes the first of the directories; each of the others holds the one before it, and is made
first if it has to be. -/
def makeChain (t : Tree) : List String → Tree × Except Fault Unit
  | [] => (t, .ok ())
  | path :: outer =>
    match t.makeDirectory path with
    | .ok t => (t, .ok ())
    | .error .notFound =>
      match makeChain t outer with
      | (t, .error f) => (t, .error f)
      | (t, .ok ()) =>
        match t.makeDirectory path with
        | .ok t => (t, .ok ())
        | .error f => forgive t path f
    | .error f => forgive t path f

/-- Makes a directory and all that it lies in. -/
def makeDirectories (t : Tree) (path : String) : Tree × Except Fault Unit :=
  t.makeChain (ancestors path)

end Tree
end Parley.Files
