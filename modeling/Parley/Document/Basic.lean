/-!
# Documents

A document is a table: keys with their values, which may be tables again. A table can be written in
several places, and its origin says what may still be added to it elsewhere. `assign?` and
`Section.add?` put values where their keys say, and fail where that would define something twice.
-/

set_option autoImplicit false

namespace Parley.Document

inductive Origin
  /-- By a header, or as the document itself. -/
  | header
  /-- On the way to a table that a header names. -/
  | implied
  /-- On the way to a value that a dotted key names. -/
  | dotted
  /-- As a value between braces. -/
  | inline
  deriving DecidableEq, Repr

/-- A value of a document. Of numbers with a fraction and of dates only their presence is kept. -/
inductive Node
  | text (s : String)
  | int (n : Int)
  | bool (b : Bool)
  | other
  /-- A list, made by headers or written between brackets. -/
  | list (byHeaders : Bool) (items : List Node)
  | table (origin : Origin) (fields : List (String × Node))

abbrev Fields := List (String × Node)

/-- A key with dots between its parts is a path of at least one name. -/
structure KeyPath where
  tables : List String
  name : String

structure Entry where
  path : KeyPath
  value : Node

namespace Fields

def replace (key : String) (value : Node) (fields : Fields) : Fields :=
  fields.map fun (k, v) => if k == key then (k, value) else (k, v)

def add? (key : String) (value : Node) (fields : Fields) : Option Fields :=
  match fields.lookup key with
  | some _ => none
  | none => some (fields ++ [(key, value)])

/-- Whether a path may lead through a table. Dotted keys do not lead into a table that a header
made, and nothing leads into one between braces. -/
def opens (way origin : Origin) : Bool :=
  match origin with
  | .inline => false
  | .header => way != .dotted
  | .implied | .dotted => true

/-- Changes the table at the end of a path. Tables that are missing are made, with origin `way`; a
list made by headers leads to its last table. -/
def descend? (way : Origin) (change : Origin → Fields → Option Fields) :
    List String → Origin → Fields → Option Fields
  | [], origin, fields => change origin fields
  | key :: path, _, fields =>
    match fields.lookup key with
    | none => do
      let made ← descend? way change path way []
      some (fields ++ [(key, .table way made)])
    | some (.table origin inner) =>
      -- a table that is there keeps its origin, however it is reached
      if opens way origin then do
        let changed ← descend? way change path origin inner
        some (replace key (.table origin changed) fields)
      else none
    | some (.list true items) =>
      match items.getLast? with
      | some (.table origin inner) => do
        let changed ← descend? way change path origin inner
        some (replace key (.list true (items.dropLast ++ [.table origin changed])) fields)
      | _ => none
    | some _ => none

/-- Adds an entry. The table that gets it is the given one, or one that dotted keys made. -/
def assign? (fields : Fields) (e : Entry) : Option Fields :=
  descend? .dotted
    (fun origin inner =>
      if e.path.tables.isEmpty || origin == .dotted then inner.add? e.path.name e.value else none)
    e.path.tables .header fields

def assignAll? (fields : Fields) (entries : List Entry) : Option Fields := entries.foldlM assign? fields

end Fields

structure Section where
  path : KeyPath
  /-- The header adds a table to a list. -/
  inList : Bool
  entries : List Entry

namespace Section

/-- Adds the table of a header to the one that holds it. A table that was only implied so far may
have a header. -/
def addHere? (s : Section) (fields : Fields) : Option Fields := do
  match s.inList, fields.lookup s.path.name with
  | false, none => fields.add? s.path.name (.table .header (← Fields.assignAll? [] s.entries))
  | false, some (.table .implied inner) =>
    some (fields.replace s.path.name (.table .header (← Fields.assignAll? inner s.entries)))
  | true, none =>
    fields.add? s.path.name (.list true [.table .header (← Fields.assignAll? [] s.entries)])
  | true, some (.list true items) =>
    some (fields.replace s.path.name
      (.list true (items ++ [.table .header (← Fields.assignAll? [] s.entries)])))
  | _, _ => none

def add? (fields : Fields) (s : Section) : Option Fields :=
  fields.descend? .implied (fun _ inner => s.addHere? inner) s.path.tables .header

end Section

/-- The document of the entries before the first header and of the sections after it. -/
def assemble? (entries : List Entry) (sections : List Section) : Option Fields := do
  sections.foldlM Section.add? (← Fields.assignAll? [] entries)

end Parley.Document
