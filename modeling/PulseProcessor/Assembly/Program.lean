import PulseProcessor.Assembly.Instruction

/-!
# Programs

A program is a list of instructions and a table of labels. It only ever grows: an operation that
can fail answers with the longer program or with an error, so the program a caller holds is never
half changed. Labels may be used before they are defined; `Program.encode` resolves them.
-/

namespace PulseProcessor

open Isa (Mnemonic Layout)

/-- An instruction with an optional comment for the listing. -/
structure Statement where
  instruction : Instruction
  comment : Option String := none
  deriving DecidableEq, Repr

/-- A program under construction. -/
structure Program where
  statements : Array Statement := #[]
  /-- Labels in the order of their definition, each with the place of the next instruction. -/
  labels : Array (String × Nat) := #[]
  deriving DecidableEq, Repr

namespace Program

/-- Number of instructions, and the place of the next one. -/
def size (p : Program) : Nat := p.statements.size

/-- The place a label marks. -/
def labelPc? (p : Program) (name : String) : Option Nat :=
  (p.labels.find? (·.1 == name)).map (·.2)

/-! ### Appending -/

/-- A comment is one line: line breaks in it become blanks. -/
def oneLine (comment : String) : String :=
  comment.map fun c => if c == '\n' || c == '\r' then ' ' else c

def append (p : Program) (i : Instruction) (comment : Option String := none) : Program :=
  { p with statements := p.statements.push ⟨i, comment.map oneLine⟩ }

/-- Names of labels start with a letter or an underscore and go on with letters, digits and
underscores, all of them ASCII. -/
def isLabelName (name : String) : Bool :=
  match name.toList with
  | [] => false
  | c :: cs => (c.isAlpha || c == '_') && cs.all fun c => c.isAlphanum || c == '_'

/-- Binds a name to the place of the next instruction. -/
def defineLabel (p : Program) (name : String) : Except AssemblyError Program :=
  if ¬ isLabelName name then .error (.invalidLabel name)
  else if (p.labelPc? name).isSome then .error (.duplicateLabel name)
  else .ok { p with labels := p.labels.push (name, p.size) }

/-- Loads a constant into a register. One instruction carries 31 bits with sign. A constant of
magnitude `2 ^ 30` or more is loaded as its quarter, shifted up, and completed by the two low
bits. -/
def loadConstant (p : Program) (page reg : UInt8) (v : Int) (comment : Option String := none) :
    Program :=
  if v.natAbs < 1 <<< 30 then p.append (.regwi page reg v) comment
  else
    let p := p.append (.regwi page reg (v / 4)) comment
    let p := p.append (.bitwi page reg reg (.known .shl) 2)
    let low := v % 4
    if low = 0 then p else p.append (.mathi page reg reg (.known .add) low)

/-! ### Encoding -/

/-- The number that stands for an operand of the instruction at `pc`. -/
def operandValue (p : Program) (pc : Nat) (m : Mnemonic) : Operand → Except AssemblyError Int
  | .int v => .ok v
  | .reg n => .ok n.toNat
  | .label name =>
    match p.labelPc? name with
    | some target => .ok target
    | none => .error (.unresolvedLabel name pc m)
  | .op o => o.resolve.map fun op => (op.code : Int)

/-- The bit pattern that stands for operand `i` of the instruction at `pc`. -/
def operandPattern (p : Program) (pc : Nat) (m : Mnemonic) (i : Nat) (o : Operand) :
    Except AssemblyError Word := do
  let v ← p.operandValue pc m o
  match m.layout.kind? i with
  | none => throw (.operandCount m m.arity (i + 1))
  | some kind =>
    match kind.pattern? v with
    | none => throw (.fieldOverflow m i v kind.width)
    | some raw => return raw

/-- The bit patterns of operands, the first of which has index `i`. -/
def operandPatterns (p : Program) (pc : Nat) (m : Mnemonic) (i : Nat) :
    List Operand → Except AssemblyError (List Word)
  | [] => .ok []
  | o :: os => return (← p.operandPattern pc m i o) :: (← p.operandPatterns pc m (i + 1) os)

/-- The word made of an opcode and the patterns of the operands. -/
def pack (l : Layout) (raws : List Word) : Word :=
  l.fields.foldl (fun w f => w ||| f.place (raws.getD f.operand 0))
    ((l.opcode.toUInt64 <<< 56) ||| l.marker)

/-- The word of one instruction, its labels looked up in this program. -/
def encodeInstruction (p : Program) (pc : Nat) (i : Instruction) : Except AssemblyError Word :=
  (p.operandPatterns pc i.mnemonic 0 i.operands).map (pack i.mnemonic.layout)

/-- The words of instructions, the first of which is at `pc`. -/
def encodeFrom (p : Program) (pc : Nat) : List Statement → Except AssemblyError (List Word)
  | [] => .ok []
  | s :: ss => do
    let w ← p.encodeInstruction pc s.instruction
    return w :: (← p.encodeFrom (pc + 1) ss)

/-- One word for each instruction, or the first fault met from the start. -/
def encode (p : Program) : Except AssemblyError (List Word) := p.encodeFrom 0 p.statements.toList

end Program
end PulseProcessor
