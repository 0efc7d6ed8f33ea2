/-!
# JSON values

The values that configuration texts are made of. Objects keep their members in the order in which
they were written, and keep repeated names, because what a repetition means is for the reader of
the object to say.
-/

namespace PulseProcessor

/-- A JSON value. -/
inductive Json where
  | null
  | bool (b : Bool)
  /-- A number of 64 bits written without fraction and exponent. -/
  | integer (v : Int)
  /-- Any other number. Nothing here reads one, so its value is not kept. -/
  | real
  | string (s : String)
  | array (items : List Json)
  | object (members : List (String × Json))
  /-- Well-formed text that denotes no value: a number too large for a double, a string with half
  of a surrogate pair, or an object with such a string for a name. -/
  | void
  deriving Inhabited

namespace Json

/-- Why a text is not one JSON value, or not one of the expected shape. -/
inductive Error where
  /-- The text ends inside the named construct; the position is the last character's. -/
  | unexpectedEnd (construct : String) (line column : Nat)
  | malformed
  | unexpectedShape
  deriving DecidableEq, Repr

def Error.message : Error → String
  | unexpectedEnd construct line column =>
    s!"EOF while parsing {construct} at line {line} column {column}"
  | malformed => "malformed JSON text"
  | unexpectedShape => "unexpected JSON value"

mutual

/-- How many arrays and objects enclose the innermost value, itself included. -/
def depth : Json → Nat
  | array items => 1 + depthItems items
  | object members => 1 + depthMembers members
  | _ => 0

/-- The greatest depth in a list of values. -/
def depthItems : List Json → Nat
  | [] => 0
  | v :: vs => max v.depth (depthItems vs)

/-- The greatest depth in a list of members. -/
def depthMembers : List (String × Json) → Nat
  | [] => 0
  | m :: ms => max m.2.depth (depthMembers ms)

end

mutual

/-- A value that is void or holds a void one. -/
def hasVoid : Json → Bool
  | void => true
  | array items => hasVoidItems items
  | object members => hasVoidMembers members
  | _ => false

/-- One of the values has a void part. -/
def hasVoidItems : List Json → Bool
  | [] => false
  | v :: vs => v.hasVoid || hasVoidItems vs

/-- One of the members has a void part. -/
def hasVoidMembers : List (String × Json) → Bool
  | [] => false
  | m :: ms => m.2.hasVoid || hasVoidMembers ms

end

end Json
end PulseProcessor
