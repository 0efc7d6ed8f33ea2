import PulseProcessor.Json.Reader
import PulseProcessor.Text.Digits

/-!
# Records in JSON values

How typed values are read out of JSON: scalars with their range, records by name or by position,
and tables. A record ignores members it does not know and refuses a member it knows that stands
twice; in a table the last of several equal names counts.
-/

namespace PulseProcessor.Json

/-- An integer from `low` up to, but without, `high`. -/
def int? (low high : Int) : Json → Option Int
  | integer v => if low ≤ v ∧ v < high then some v else none
  | _ => none

def byte? (j : Json) : Option UInt8 := (j.int? 0 UInt8.size).map fun v => UInt8.ofNat v.toNat

def word32? (j : Json) : Option UInt32 := (j.int? 0 UInt32.size).map fun v => UInt32.ofNat v.toNat

/-- A signed 64-bit integer. -/
def int64? (j : Json) : Option Int := j.int? (-Text.signedBound) Text.signedBound

def bool? : Json → Option Bool
  | bool b => some b
  | _ => none

def string? : Json → Option String
  | string s => some s
  | _ => none

def array? : Json → Option (List Json)
  | array items => some items
  | _ => none

def object? : Json → Option (List (String × Json))
  | object members => some members
  | _ => none

/-- The only member with a name: none inside if there is no such member, none outside if there are
several. -/
def member? (members : List (String × Json)) (name : String) : Option (Option Json) :=
  match members.filter (·.1 == name) with
  | [] => some none
  | [m] => some (some m.2)
  | _ => none

/-- The fields of a record, in the order of `names`, each if it is present. The record is written
as an object, or as an array of its fields in order. -/
def record? (names : List String) : Json → Option (List (Option Json))
  | object members => names.mapM (member? members)
  | array items =>
    if items.length ≤ names.length then
      some (items.map some ++ List.replicate (names.length - items.length) none)
    else none
  | _ => none

/-- The entries of a table, repeated names included. -/
def table? {α β : Type} (key : String → Option α) (value : Json → Option β) (j : Json) :
    Option (List (α × β)) := do
  (← j.object?).mapM fun m => return (← key m.1, ← value m.2)

/-- A field that has to be present. -/
def required {α : Type} (field : Option Json) (read : Json → Option α) : Option α := field >>= read

/-- A field that stands for `default` when it is absent. -/
def optional {α : Type} (field : Option Json) (default : α) (read : Json → Option α) : Option α :=
  match field with
  | none => some default
  | some j => read j

/-- Reads a text that holds one value of a shape. -/
def decode {α : Type} (read : Json → Option α) (text : String) : Except Error α := do
  match read (← ofText text) with
  | some a => return a
  | none => throw .unexpectedShape

end PulseProcessor.Json
