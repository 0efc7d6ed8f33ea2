import PulseProcessor.Listing.Token
import PulseProcessor.Text.Lines

/-!
# Lines of a listing

A line is an optional label with a colon, an optional instruction with a semicolon, and an
optional comment behind `//`, in this order, with blanks between them wherever one likes.
-/

namespace PulseProcessor.Listing

/-- A line in its parts. The comment has no blanks at its ends. -/
structure Line where
  label : Option String := none
  /-- Mnemonic and operands. -/
  instruction : Option (String × List Operand) := none
  comment : Option String := none
  deriving DecidableEq, Repr

/-- The operands that follow a first one, as many as there are, and the rest of the text. -/
def moreOperands (cs : List Char) : List Operand × List Char :=
  match hs : separator? cs with
  | none => ([], cs)
  | some next =>
    match ho : operand? next with
    | none => ([], cs)
    | some (o, rest) =>
      have : rest.length < cs.length := Nat.lt_trans (length_operand? ho) (length_separator? hs)
      let (os, rest) := moreOperands rest
      (o :: os, rest)
termination_by cs.length

/-- An operand list, which may be empty. -/
def operands (cs : List Char) : List Operand × List Char :=
  match operand? cs with
  | none => ([], cs)
  | some (o, rest) =>
    let (os, rest) := moreOperands rest
    (o :: os, rest)

/-- A name with a colon behind it. -/
def label? (cs : List Char) : Option (String × List Char) := do
  let (n, rest) ← name? cs
  let ':' :: rest := skipSpaces rest | none
  return (n, rest)

/-- A mnemonic with its operands and a semicolon. -/
def instruction? (cs : List Char) : Option ((String × List Operand) × List Char) := do
  let (n, rest) ← name? cs
  let (os, rest) := operands (skipSpaces rest)
  let ';' :: rest := skipSpaces rest | none
  return ((n, os), rest)

/-- An optional part of a line: what was read, if anything, and the rest of the text. -/
def optionally {α : Type} (read : List Char → Option (α × List Char)) (cs : List Char) :
    Option α × List Char :=
  match read cs with
  | some (a, rest) => (some a, rest)
  | none => (none, cs)

/-- Reads a whole line, without its ending. -/
def Line.ofChars? (cs : List Char) : Option Line :=
  let (label, rest) := optionally label? (skipSpaces cs)
  let (instruction, rest) := optionally instruction? (skipSpaces rest)
  match skipSpaces rest with
  | [] => some ⟨label, instruction, none⟩
  | '/' :: '/' :: comment => some ⟨label, instruction, some (String.ofList (Text.trim comment))⟩
  | _ => none

end PulseProcessor.Listing
