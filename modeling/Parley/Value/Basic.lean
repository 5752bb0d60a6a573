/-!
# Payload values

The values that travel through the bus: JSON whose numbers are integers. A number that JSON readers
hold as a floating-point number is no such value: one with a fraction or an exponent, a zero with a
minus, an integer beyond 64 bits. The fields of an object are kept in the order of their keys, each
key once; `Fields.insert` keeps them so.
-/

set_option autoImplicit false

namespace Parley

/-- A JSON value whose numbers are integers. -/
inductive Value
  | null
  | bool (b : Bool)
  | int (n : Int)
  | text (s : String)
  | list (items : List Value)
  | object (fields : List (String × Value))
  deriving Repr, Inhabited

/-- The fields of an object, in the order of their keys. -/
abbrev Fields := List (String × Value)

namespace Fields

/-- Sets the field `key`, replacing one of that name. -/
def insert {α : Type} (key : String) (value : α) : List (String × α) → List (String × α)
  | [] => [(key, value)]
  | (k, v) :: rest =>
    if key < k then (key, value) :: (k, v) :: rest
    else if key = k then (key, value) :: rest
    else (k, v) :: insert key value rest

def get? (key : String) (fields : Fields) : Option Value := fields.lookup key

end Fields

namespace Value

def asText? : Value → Option String
  | text s => some s
  | _ => none

def asBool? : Value → Option Bool
  | bool b => some b
  | _ => none

def asFields? : Value → Option Fields
  | object fields => some fields
  | _ => none

def texts (ss : List String) : Value := .list (ss.map .text)

/-- The object with the given fields; of two with one key the later counts. -/
def ofFields (fields : Fields) : Value :=
  .object (fields.foldl (fun acc f => Fields.insert f.1 f.2 acc) [])

end Value
end Parley
