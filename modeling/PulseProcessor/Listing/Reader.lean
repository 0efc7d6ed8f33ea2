import PulseProcessor.Assembly.Program
import PulseProcessor.Listing.Line
import PulseProcessor.Text.Quoted

/-!
# Reading listings

A listing is assembled line by line into a program. A label binds to the next instruction,
whether it shares its line or not. Values are not checked here; encoding the program does that.
-/

namespace PulseProcessor

/-- Why a listing cannot be assembled. Lines are counted from one. -/
inductive ListingError where
  | syntaxError (line : Nat) (text : String)
  | assembly (line : Nat) (cause : AssemblyError)
  deriving DecidableEq, Repr

namespace ListingError

def line : ListingError → Nat
  | syntaxError n _ => n
  | assembly n _ => n

def message : ListingError → String
  | syntaxError n text => s!"line {n}: cannot parse " ++ Text.quote text
  | assembly n cause => s!"line {n}: " ++ cause.message

end ListingError

namespace Program

/-- Takes up the parts of a line. A comment belongs to the instruction of its line; it is dropped
if it is empty or if there is no instruction. -/
def addLine (p : Program) (l : Listing.Line) : Except AssemblyError Program := do
  let p ← match l.label with
    | none => pure p
    | some name => p.defineLabel name
  match l.instruction with
  | none => return p
  | some (name, operands) =>
    let i ← Instruction.ofNamedParts name operands
    return p.append i (l.comment.filter (! ·.isEmpty))

/-- Assembles lines, the first of which has the given number. -/
def addLines (p : Program) (number : Nat) : List (List Char) → Except ListingError Program
  | [] => .ok p
  | cs :: rest =>
    match Listing.Line.ofChars? (Text.trimEnd cs) with
    | none => .error (.syntaxError number (String.ofList cs))
    | some l =>
      match p.addLine l with
      | .error e => .error (.assembly number e)
      | .ok p => p.addLines (number + 1) rest

/-- The program that a listing describes. -/
def ofListing (text : String) : Except ListingError Program :=
  ({} : Program).addLines 1 (Text.splitLines text.toList)

end Program
end PulseProcessor
