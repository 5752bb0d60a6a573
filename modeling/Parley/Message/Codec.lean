import Parley.Message.Basic
import Parley.Value.Printer
import Parley.Value.Reader

/-!
# Messages as JSON texts

`encode` writes a message as an object of its six fields. `decode` reads one from an object whose
fields may come in any order, with unknown ones passed over, or from the list of the six values.
Only `extra` may be left out. The text is read from left to right, so the first fault decides.
Messages hold no floating-point numbers here: one whose data or extra fields have a number that is no
integer in range is refused once all of it has been read, where a reader with such numbers takes it.
-/

set_option autoImplicit false

namespace Parley.Message

open Value

def encode (m : Message) : Value :=
  .object [("channel", .text m.channel), ("created_at", .text m.createdAt.render),
    ("data", m.data), ("extra", .object m.extra), ("id", .text m.id.render),
    ("source", .text m.source.name)]

structure Draft where
  id : Option MessageId := none
  channel : Option String := none
  source : Option Source := none
  /-- The data that were read, if there is a value for them. -/
  data : Option (Option Value) := none
  extra : Option (Option Fields) := none
  createdAt : Option Timestamp := none

inductive FieldName
  | id
  | channel
  | source
  | data
  | extra
  | createdAt
  deriving DecidableEq, Repr

namespace FieldName

def ofKey? : String → Option FieldName
  | "id" => some id
  | "channel" => some channel
  | "source" => some source
  | "data" => some data
  | "extra" => some extra
  | "created_at" => some createdAt
  | _ => none

/-- The order of the values when a message is written as a list. -/
def all : List FieldName := [id, channel, source, data, extra, createdAt]

end FieldName

namespace Draft

def has (d : Draft) : FieldName → Bool
  | .id => d.id.isSome
  | .channel => d.channel.isSome
  | .source => d.source.isSome
  | .data => d.data.isSome
  | .extra => d.extra.isSome
  | .createdAt => d.createdAt.isSome

/-- The message, if no field is missing and there is a value for each. -/
def finish (d : Draft) : Except ReadFault (Option Message) :=
  match d.id, d.channel, d.source, d.data, d.createdAt with
  | some id, some channel, some source, some data, some createdAt =>
    .ok do
      return { id, channel, source, data := ← data, extra := ← d.extra.getD (some []), createdAt }
  | _, _, _, _, _ => .error .mismatched

end Draft

def readAs {α : Type} (parse? : String → Option α) (cs : List Char) : Read α :=
  match expectText cs with
  | .error f => .error f
  | .ok (s, rest) =>
    match parse? s with
    | some a => .ok (a, rest)
    | none => .error .mismatched

/-- A source: its name, or an object with the name as key and null as value. -/
def readSource (cs : List Char) : Read Source :=
  match skipSpace cs with
  | '"' :: rest =>
    match quotedText false rest with
    | .error f => .error f
    | .ok (s, rest) => named s rest
  | '\x7b' :: rest =>
    match nextKey true rest with
    | .error f => .error f
    | .ok (none, _) => .error .malformed
    | .ok (some start, _) =>
      match quotedText false start with
      | .error f => .error f
      | .ok (s, rest) =>
        match named s rest with
        | .error f => .error f
        | .ok (source, rest) =>
          match colon rest with
          | .error f => .error f
          | .ok rest => (readNull rest).map (source, ·)
  | [] => .error .ended
  | _ => .error .malformed
where
  /-- The null after the key, and the closing brace. -/
  readNull (cs : List Char) : Except ReadFault (List Char) :=
    match skipSpace cs with
    | 'n' :: rest =>
      match keyword ['u', 'l', 'l'] rest with
      | .error f => .error f
      | .ok rest =>
        match skipSpace rest with
        | '\x7d' :: rest => .ok rest
        | [] => .error .ended
        | _ => .error .malformed
    | cs => .error (unexpected cs)
  named (s : String) (rest : List Char) : Read Source :=
    match Source.ofName? s with
    | some source => .ok (source, rest)
    | none => .error .mismatched

/-- How deep the values inside a message may nest. -/
def innerDepth : Nat := maxDepth - 1

def readExtra (cs : List Char) : Read (Option Fields) :=
  match skipSpace cs with
  | '\x7b' :: _ => (value innerDepth cs).map fun (v, rest) => (v.bind Value.asFields?, rest)
  | cs => .error (unexpected cs)

def readField (d : Draft) (cs : List Char) : FieldName → Read Draft
  | .id => (readAs MessageId.parse? cs).map fun (v, r) => ({ d with id := some v }, r)
  | .channel => (readAs some cs).map fun (v, r) => ({ d with channel := some v }, r)
  | .source => (readSource cs).map fun (v, r) => ({ d with source := some v }, r)
  | .data => (value innerDepth cs).map fun (v, r) => ({ d with data := some v }, r)
  | .extra => (readExtra cs).map fun (v, r) => ({ d with extra := some v }, r)
  | .createdAt => (readAs Timestamp.parse? cs).map fun (v, r) => ({ d with createdAt := some v }, r)

/-- The fields of an object up to its closing brace. `fuel` is more than the number of characters
left. -/
def readObject : Nat → Bool → Draft → List Char → Read (Option Message)
  | 0, _, _, _ => .error .ended
  | fuel + 1, first, d, cs =>
    match nextKey first cs with
    | .error f => .error f
    | .ok (none, rest) => d.finish.map (·, rest.drop 1)
    | .ok (some start, _) =>
      match quotedText false start with
      | .error f => .error f
      | .ok (key, rest) =>
        match FieldName.ofKey? key with
        | some name =>
          if d.has name then .error .mismatched
          else match colon rest with
            | .error f => .error f
            | .ok rest =>
              match readField d rest name with
              | .error f => .error f
              | .ok (d, rest) => readObject fuel false d rest
        | none =>
          match colon rest with
          | .error f => .error f
          | .ok rest =>
            match skip rest with
            | .error f => .error f
            | .ok rest => readObject fuel false d rest

def readList : Bool → List FieldName → Draft → List Char → Read (Option Message)
  | _, [], d, cs =>
    match d.finish with
    | .error f => .error f
    | .ok m =>
      match skipSpace cs with
      | ']' :: rest => .ok (m, rest)
      | [] => .error .ended
      | _ => .error .malformed
  | first, name :: names, d, cs =>
    match nextItem first cs with
    | .error f => .error f
    | .ok (none, rest) =>
      if name = .extra then readList first names { d with extra := some (some []) } (']' :: rest)
      else .error .mismatched
    | .ok (some start, _) =>
      match readField d start name with
      | .error f => .error f
      | .ok (d, rest) => readList false names d rest

/-- The message that a text holds; `.fraction` if only its numbers stand against it. -/
def decode (s : String) : Except ReadFault Message :=
  let cs := skipSpace s.toList
  let read : Read (Option Message) := match cs with
    | '\x7b' :: rest => readObject (rest.length + 1) true {} rest
    | '[' :: rest => readList true FieldName.all {} rest
    | _ => .error (unexpected cs)
  match read with
  | .error f => .error f
  | .ok (m, rest) =>
    if !(skipSpace rest).isEmpty then .error .malformed
    else match m with
      | some m => .ok m
      | none => .error .fraction

end Parley.Message
