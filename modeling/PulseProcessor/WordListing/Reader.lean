import PulseProcessor.Isa.Field
import PulseProcessor.Text.Digits
import PulseProcessor.Text.Lines
import PulseProcessor.Text.Quoted

/-!
# Reading word listings

Every line holds one word or nothing. A comment starts at the first `//`, blanks at the ends do
not count, and hexadecimal and binary words may be mixed.
-/

namespace PulseProcessor.WordListing

/-- What is wrong with a line. -/
inductive Fault where
  /-- The text carries no mark of a base. -/
  | unmarked
  /-- What follows the mark is no number of 64 bits. -/
  | number (cause : Text.NumberError)
  deriving DecidableEq, Repr

/-- The first line that cannot be read, counted from one, with its text. -/
structure Error where
  line : Nat
  text : String
  fault : Fault
  deriving DecidableEq, Repr

namespace Error

/-- The fault and its cause, if it has one. -/
def messages (e : Error) : List String :=
  match e.fault with
  | .unmarked => [s!"line {e.line}: expected 0x or 0b word, found " ++ Text.quote e.text]
  | .number cause => [s!"line {e.line}: invalid word " ++ Text.quote e.text, cause.message]

end Error

/-- The text of a line without its comment and the blanks at its ends. -/
def content (line : List Char) : List Char := Text.trim (Text.beforeComment line)

/-- A word with the mark of its base. -/
def parseWord (cs : List Char) : Except Fault Word :=
  let number (base : Nat) (digits : List Char) : Except Fault Word :=
    ((Text.readUnsigned base UInt64.size digits).mapError .number).map UInt64.ofNat
  match cs with
  | '0' :: 'x' :: digits => number 16 digits
  | '0' :: 'b' :: digits => number 2 digits
  | _ => .error .unmarked

/-- The word on a line, if there is one. -/
def parseLine (line : List Char) : Except Fault (Option Word) :=
  match content line with
  | [] => .ok none
  | cs => (parseWord cs).map some

/-- The words on lines, the first of which has the given number. -/
def parseLines (number : Nat) : List (List Char) → Except Error (List Word)
  | [] => .ok []
  | line :: rest =>
    match parseLine line with
    | .error fault => .error ⟨number, String.ofList (content line), fault⟩
    | .ok word? => (parseLines (number + 1) rest).map (word?.toList ++ ·)

/-- The words of a listing. -/
def parse (text : String) : Except Error (List Word) :=
  parseLines 1 (Text.splitLines text.toList)

end PulseProcessor.WordListing
