import PulseProcessor.Assembly.Program

/-!
# Printing listings

A listing has one line for each instruction and one for each label, in front of the instruction it
marks. Instructions are indented past the longest label.
-/

namespace PulseProcessor
namespace Program

/-- The lines of the labels that mark a place. -/
def labelLines (p : Program) (pc : Nat) : List String :=
  (p.labels.toList.filter (·.2 == pc)).map (·.1 ++ ":")

/-- Room for the longest label, its colon and a blank. -/
def indent (p : Program) : Nat := (p.labels.toList.map (·.1.utf8ByteSize + 2)).foldl max 0

end Program

/-- An instruction with its operands and comment. -/
def Statement.text (s : Statement) : String :=
  let name := s.instruction.mnemonic.name
  let operands := s.instruction.operandText
  let code := if operands.isEmpty then name ++ ";" else name ++ " " ++ operands ++ ";"
  match s.comment with
  | none => code
  | some comment => code ++ "  // " ++ comment

namespace Program

/-- The lines of instructions and labels from place `pc` on. -/
def linesFrom (p : Program) (pc : Nat) : List Statement → List String
  | [] => p.labelLines pc
  | s :: ss =>
    p.labelLines pc ++
      (String.ofList (List.replicate p.indent ' ') ++ s.text) :: p.linesFrom (pc + 1) ss

/-- The listing of a program. -/
def listing (p : Program) : String :=
  String.join (("// Program" :: p.linesFrom 0 p.statements.toList).map (· ++ "\n"))

end Program
end PulseProcessor
