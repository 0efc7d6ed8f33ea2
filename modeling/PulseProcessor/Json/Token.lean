import PulseProcessor.Json.Number
import PulseProcessor.Text.Digits

/-!
# Tokens of a JSON text

The scanner is an automaton that takes one character at a time, so that it ends because the text
does. Numbers and the three literals are collected as words and judged when the word ends: two
words never touch in a JSON text.
-/

namespace PulseProcessor.Json

/-- A token of a JSON text. -/
inductive Token where
  /-- One of the six structural characters. -/
  | mark (c : Char)
  /-- A string; none if it holds half of a surrogate pair. -/
  | text (s : Option String)
  /-- A literal or a number. -/
  | scalar (v : Json)

/-! ### Words -/

/-- Characters that numbers and literals are made of, or could be mistaken for. -/
def isWordChar (c : Char) : Bool := c.isAlphanum || c == '+' || c == '-' || c == '.'

/-- The value of a whole word. -/
def word? (cs : List Char) : Option Json :=
  match String.ofList cs with
  | "null" => some .null
  | "true" => some (.bool true)
  | "false" => some (.bool false)
  | _ => number? cs

/-! ### Strings -/

/-- A piece of a string: a character as it stands, or a code unit written as an escape. -/
inductive Piece where
  | char (c : Char)
  | unit (n : Nat)

/-- Joins pieces. A high surrogate needs a low one behind it, and a low one a high one in front. -/
def joinPieces : List Piece → Option (List Char)
  | [] => some []
  | .char c :: ps => (joinPieces ps).map (c :: ·)
  | .unit h :: .unit l :: ps =>
    if 0xD800 ≤ h ∧ h < 0xDC00 ∧ 0xDC00 ≤ l ∧ l < 0xE000 then
      (joinPieces ps).map (Char.ofNat (0x10000 + (h - 0xD800) * 0x400 + (l - 0xDC00)) :: ·)
    else if 0xD800 ≤ h ∧ h < 0xE000 then none
    else (joinPieces (.unit l :: ps)).map (Char.ofNat h :: ·)
  | .unit n :: ps =>
    if 0xD800 ≤ n ∧ n < 0xE000 then none else (joinPieces ps).map (Char.ofNat n :: ·)

/-- What a one-letter escape stands for. -/
def escape? : Char → Option Char
  | '"' => some '"'
  | '\\' => some '\\'
  | '/' => some '/'
  | 'b' => some '\x08'
  | 'f' => some '\x0c'
  | 'n' => some '\n'
  | 'r' => some '\r'
  | 't' => some '\t'
  | _ => none

/-! ### The scanner -/

/-- Where the scanner stands. What it has collected is kept in reverse. -/
inductive Scan where
  | between
  | word (cs : List Char)
  | string (ps : List Piece)
  /-- Behind a backslash. -/
  | escape (ps : List Piece)
  /-- Inside a code unit, with so many digits to come. -/
  | unit (ps : List Piece) (left value : Nat)

/-- A scan in progress: its state and the tokens so far, latest first. -/
structure Scanner where
  state : Scan
  tokens : List Token

namespace Scanner

/-- Ends the word the scanner may stand in. -/
def endWord (s : Scanner) : Except Error Scanner :=
  match s.state with
  | .word cs =>
    match word? cs.reverse with
    | some v => .ok ⟨.between, .scalar v :: s.tokens⟩
    | none => .error .malformed
  | _ => .ok s

/-- A character outside strings and words. -/
def outside (s : Scanner) (c : Char) : Except Error Scanner :=
  if c == ' ' || c == '\t' || c == '\n' || c == '\r' then .ok s
  else if ['\x7b', '\x7d', '[', ']', ':', ','].contains c then .ok ⟨.between, .mark c :: s.tokens⟩
  else if c == '"' then .ok ⟨.string [], s.tokens⟩
  else if isWordChar c then .ok ⟨.word [c], s.tokens⟩
  else .error .malformed

def step (s : Scanner) (c : Char) : Except Error Scanner :=
  match s.state with
  | .between => s.outside c
  | .word cs =>
    if isWordChar c then .ok ⟨.word (c :: cs), s.tokens⟩ else do (← s.endWord).outside c
  | .string ps =>
    if c == '"' then
      .ok ⟨.between, .text ((joinPieces ps.reverse).map String.ofList) :: s.tokens⟩
    else if c == '\\' then .ok ⟨.escape ps, s.tokens⟩
    else if c.toNat < 0x20 then .error .malformed
    else .ok ⟨.string (.char c :: ps), s.tokens⟩
  | .escape ps =>
    if c == 'u' then .ok ⟨.unit ps 4 0, s.tokens⟩
    else
      match escape? c with
      | some e => .ok ⟨.string (.char e :: ps), s.tokens⟩
      | none => .error .malformed
  | .unit ps left value =>
    match Text.digit? 16 c with
    | none => .error .malformed
    | some d =>
      let n := 16 * value + d
      if left ≤ 1 then .ok ⟨.string (.unit n :: ps), s.tokens⟩
      else .ok ⟨.unit ps (left - 1) n, s.tokens⟩

end Scanner

/-- The line and column of the end of a text, counted in bytes from the last line feed. -/
def endPosition (cs : List Char) : Nat × Nat :=
  cs.foldl (fun p c => if c == '\n' then (p.1 + 1, 0) else (p.1, p.2 + c.utf8Size)) (1, 0)

/-- The tokens of a text. -/
def tokens (cs : List Char) : Except Error (List Token) := do
  let s ← cs.foldlM Scanner.step ⟨.between, []⟩
  let s ← s.endWord
  match s.state with
  | .between | .word _ => return s.tokens.reverse
  | _ =>
    let (line, column) := endPosition cs
    throw (.unexpectedEnd "a string" line column)

end PulseProcessor.Json
