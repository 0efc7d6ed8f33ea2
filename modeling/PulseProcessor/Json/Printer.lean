import PulseProcessor.Json.Basic

/-!
# Writing JSON texts

Two forms: compact, without any blank, and pretty, with two blanks for each level. Only quotes,
backslashes and control characters are escaped.
-/

namespace PulseProcessor.Json

/-- One character as it stands in a JSON string. -/
def escapeChar (c : Char) : List Char :=
  match c with
  | '"' => ['\\', '"']
  | '\\' => ['\\', '\\']
  | '\x08' => ['\\', 'b']
  | '\x0c' => ['\\', 'f']
  | '\n' => ['\\', 'n']
  | '\r' => ['\\', 'r']
  | '\t' => ['\\', 't']
  | _ =>
    if c.toNat < 0x20 then
      ['\\', 'u', '0', '0', Nat.digitChar (c.toNat / 16), Nat.digitChar (c.toNat % 16)]
    else [c]

/-- A string between quotes. -/
def quoted (s : String) : String := String.ofList ('"' :: s.toList.flatMap escapeChar ++ ['"'])

mutual

/-- The text of a value without blanks. -/
def compact : Json → String
  | null | real | void => "null"
  | bool b => if b then "true" else "false"
  | integer v => toString v
  | string s => quoted s
  | array items => "[" ++ ",".intercalate (compactItems items) ++ "]"
  | object members => "\x7b" ++ ",".intercalate (compactMembers members) ++ "\x7d"

/-- The texts of items. -/
def compactItems : List Json → List String
  | [] => []
  | v :: vs => v.compact :: compactItems vs

/-- The texts of members. -/
def compactMembers : List (String × Json) → List String
  | [] => []
  | (n, v) :: ms => (quoted n ++ ":" ++ v.compact) :: compactMembers ms

end

/-- A line break and two blanks for each level. -/
def newline (level : Nat) : String := "\n" ++ String.ofList (List.replicate (2 * level) ' ')

/-- Texts between brackets, each on a line of its own one level down. Brackets around nothing
stay together. -/
def block (left right : String) (level : Nat) (texts : List String) : String :=
  if texts.isEmpty then left ++ right
  else
    left ++ ",".intercalate (texts.map (newline (level + 1) ++ ·)) ++ newline level ++ right

mutual

/-- The text of a value at a level, items and members on lines of their own. -/
def prettyAt (level : Nat) : Json → String
  | array items => block "[" "]" level (prettyItems (level + 1) items)
  | object members => block "\x7b" "\x7d" level (prettyMembers (level + 1) members)
  | null => compact null
  | bool b => compact (bool b)
  | integer v => compact (integer v)
  | real => compact real
  | string s => compact (string s)
  | void => compact void

/-- The texts of items. -/
def prettyItems (level : Nat) : List Json → List String
  | [] => []
  | v :: vs => v.prettyAt level :: prettyItems level vs

/-- The texts of members. -/
def prettyMembers (level : Nat) : List (String × Json) → List String
  | [] => []
  | (n, v) :: ms => (quoted n ++ ": " ++ v.prettyAt level) :: prettyMembers level ms

end

/-- The text of a value, indented. -/
def pretty (v : Json) : String := v.prettyAt 0

end PulseProcessor.Json
