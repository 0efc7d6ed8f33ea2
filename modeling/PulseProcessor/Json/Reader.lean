import PulseProcessor.Json.Token

/-!
# Reading JSON texts

Values are built by an automaton with a stack of open arrays and objects. It takes one token at a
time, so that reading ends because the tokens do.
-/

namespace PulseProcessor.Json

/-- The members of an object so far, latest first; none if the name of one denotes no text. -/
abbrev Members := Option (List (String × Json))

/-- The object with such members. It denotes no value if one of the names denotes no text. -/
def ofMembers : Members → Json
  | some seen => .object seen.reverse
  | none => .void

/-- An open array or object, with what it holds so far, latest first. -/
inductive Frame where
  | items (seen : List Json)
  /-- The value of member `name` is being read. -/
  | members (seen : Members) (name : Option String)

/-- What may come next. -/
inductive Builder where
  | value (open_ : List Frame)
  /-- Behind an opening bracket. -/
  | firstItem (open_ : List Frame)
  | afterItem (seen : List Json) (open_ : List Frame)
  /-- Behind an opening brace. -/
  | firstName (open_ : List Frame)
  | name (seen : Members) (open_ : List Frame)
  | colon (seen : Members) (name : Option String) (open_ : List Frame)
  | afterMember (seen : Members) (open_ : List Frame)
  | complete (v : Json)

namespace Builder

/-- Puts a finished value into the innermost open array or object. -/
def finish (v : Json) : List Frame → Builder
  | [] => .complete v
  | .items seen :: fs => .afterItem (v :: seen) fs
  | .members seen n :: fs => .afterMember (n.bind fun n => seen.map ((n, v) :: ·)) fs

/-- A token where a value is due. -/
def start (fs : List Frame) : Token → Option Builder
  | .mark '[' => some (.firstItem fs)
  | .mark '\x7b' => some (.firstName fs)
  | .mark _ => none
  | .text (some s) => some (finish (.string s) fs)
  | .text none => some (finish .void fs)
  | .scalar v => some (finish v fs)

def step : Builder → Token → Option Builder
  | value fs, t => start fs t
  | firstItem fs, .mark ']' => some (finish (.array []) fs)
  | firstItem fs, t => start (.items [] :: fs) t
  | afterItem seen fs, .mark ',' => some (.value (.items seen :: fs))
  | afterItem seen fs, .mark ']' => some (finish (.array seen.reverse) fs)
  | firstName fs, .mark '\x7d' => some (finish (.object []) fs)
  | firstName fs, .text n => some (.colon (some []) n fs)
  | name seen fs, .text n => some (.colon seen n fs)
  | colon seen n fs, .mark ':' => some (.value (.members seen n :: fs))
  | afterMember seen fs, .mark ',' => some (.name seen fs)
  | afterMember seen fs, .mark '\x7d' => some (finish (ofMembers seen) fs)
  | _, _ => none

/-- What a text that ends here has left open. -/
def unfinished : Builder → String
  | value _ | name .. => "a value"
  | firstItem _ | afterItem .. => "a list"
  | _ => "an object"

end Builder

/-- Reads a text that holds one value, and blanks around it. -/
def ofText (text : String) : Except Error Json := do
  let cs := text.toList
  let ts ← tokens cs
  match ts.foldlM Builder.step (.value []) with
  | none => throw .malformed
  | some (.complete v) => return v
  | some b =>
    let (line, column) := endPosition cs
    throw (.unexpectedEnd b.unfinished line column)

end PulseProcessor.Json
