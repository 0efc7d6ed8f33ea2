import PulseProcessor.Assembly.Error
import PulseProcessor.Isa.Operator

/-!
# Instructions

An instruction has two views. The typed view names its operands; the untyped view is a mnemonic
with an operand list, as a listing is read and as words are packed. `Instruction.ofParts` leads
from the second to the first and checks operand count and kinds; values are checked when a program
is encoded.
-/

namespace PulseProcessor

open Isa (Mnemonic Operator FieldKind)

/-- An operator, or a symbol that becomes one when the program is encoded. -/
inductive OperatorRef where
  | known (op : Operator)
  | symbol (s : String)
  deriving DecidableEq, Repr

namespace OperatorRef

def resolve : OperatorRef → Except AssemblyError Operator
  | known op => .ok op
  | symbol s =>
    match Operator.ofSymbol? s with
    | some op => .ok op
    | none => .error (.unknownOperator s)

def text : OperatorRef → String
  | known op => op.symbol
  | symbol s => s

end OperatorRef

/-- An operand without its role. -/
inductive Operand where
  /-- Page, channel or immediate. -/
  | int (v : Int)
  /-- Register number. -/
  | reg (n : UInt8)
  /-- Jump target. -/
  | label (name : String)
  | op (o : OperatorRef)
  deriving DecidableEq, Repr

/-- The operand as a listing writes it behind its lead. -/
def Operand.text : Operand → String
  | int v => toString v
  | reg n => toString n
  | label name => name
  | op o => o.text

/-- An instruction with named operands. Register operands name registers of `page`. -/
inductive Instruction where
  | pushi (page dst src : UInt8) (imm : Int)
  | popi (page reg : UInt8)
  | mathi (page dst src : UInt8) (op : OperatorRef) (imm : Int)
  | seti (channel page reg : UInt8) (t : Int)
  | synci (t : Int)
  | waiti (channel : UInt8) (t : Int)
  | bitwi (page dst src : UInt8) (op : OperatorRef) (imm : Int)
  | memri (page reg : UInt8) (addr : Int)
  | memwi (page reg : UInt8) (addr : Int)
  | regwi (page reg : UInt8) (imm : Int)
  | setbi (page reg : UInt8) (imm : Int)
  | loopnz (page reg : UInt8) (target : String)
  | condj (page lhs : UInt8) (op : OperatorRef) (rhs : UInt8) (target : String)
  | halt
  | math (page dst lhs : UInt8) (op : OperatorRef) (rhs : UInt8)
  | set (channel page freq phase addr gain mode t : UInt8)
  | sync (page reg : UInt8)
  | read (channel page : UInt8) (op : OperatorRef) (reg : UInt8)
  | wait (channel page reg : UInt8)
  | bitw (page dst lhs : UInt8) (op : OperatorRef) (rhs : UInt8)
  | memr (page dst addr : UInt8)
  | memw (page src addr : UInt8)
  | setb (page src addr : UInt8)
  deriving DecidableEq, Repr

namespace Instruction

def mnemonic : Instruction → Mnemonic
  | pushi .. => .pushi
  | popi .. => .popi
  | mathi .. => .mathi
  | seti .. => .seti
  | synci .. => .synci
  | waiti .. => .waiti
  | bitwi .. => .bitwi
  | memri .. => .memri
  | memwi .. => .memwi
  | regwi .. => .regwi
  | setbi .. => .setbi
  | loopnz .. => .loopnz
  | condj .. => .condj
  | halt => .halt
  | math .. => .math
  | set .. => .set
  | sync .. => .sync
  | read .. => .read
  | wait .. => .wait
  | bitw .. => .bitw
  | memr .. => .memr
  | memw .. => .memw
  | setb .. => .setb

/-- A page or channel number as an operand. -/
def small (n : UInt8) : Operand := .int n.toNat

/-- The operands, in the order of the mnemonic's operand list. -/
def operands : Instruction → List Operand
  | pushi page dst src imm => [small page, .reg dst, .reg src, .int imm]
  | popi page reg => [small page, .reg reg]
  | mathi page dst src op imm => [small page, .reg dst, .reg src, .op op, .int imm]
  | seti channel page reg t => [small channel, small page, .reg reg, .int t]
  | synci t => [.int t]
  | waiti channel t => [small channel, .int t]
  | bitwi page dst src op imm => [small page, .reg dst, .reg src, .op op, .int imm]
  | memri page reg addr => [small page, .reg reg, .int addr]
  | memwi page reg addr => [small page, .reg reg, .int addr]
  | regwi page reg imm => [small page, .reg reg, .int imm]
  | setbi page reg imm => [small page, .reg reg, .int imm]
  | loopnz page reg target => [small page, .reg reg, .label target]
  | condj page lhs op rhs target => [small page, .reg lhs, .op op, .reg rhs, .label target]
  | halt => []
  | math page dst lhs op rhs => [small page, .reg dst, .reg lhs, .op op, .reg rhs]
  | set channel page freq phase addr gain mode t =>
    [small channel, small page, .reg freq, .reg phase, .reg addr, .reg gain, .reg mode, .reg t]
  | sync page reg => [small page, .reg reg]
  | read channel page op reg => [small channel, small page, .op op, .reg reg]
  | wait channel page reg => [small channel, small page, .reg reg]
  | bitw page dst lhs op rhs => [small page, .reg dst, .reg lhs, .op op, .reg rhs]
  | memr page dst addr => [small page, .reg dst, .reg addr]
  | memw page src addr => [small page, .reg src, .reg addr]
  | setb page src addr => [small page, .reg src, .reg addr]

/-- The label that a jump leads to. -/
def target? : Instruction → Option String
  | loopnz _ _ target => some target
  | condj _ _ _ _ target => some target
  | _ => none

/-! ### From parts -/

/-- Kind of operand `i` of a mnemonic. -/
def expectedKind (m : Mnemonic) (i : Nat) : FieldKind := (m.layout.kind? i).getD .immediate

section
variable (m : Mnemonic) (i : Nat)

/-- Operand `i` as an integer. -/
def readInt : Operand → Except AssemblyError Int
  | .int v => .ok v
  | _ => .error (.operandKind m i (expectedKind m i))

/-- Operand `i` as a page or channel number. -/
def readSmall (o : Operand) : Except AssemblyError UInt8 := do
  let v ← readInt m i o
  if 0 ≤ v ∧ v < 256 then return UInt8.ofNat v.toNat
  throw (.fieldOverflow m i v (expectedKind m i).width)

/-- Operand `i` as a register number. -/
def readReg : Operand → Except AssemblyError UInt8
  | .reg n => .ok n
  | _ => .error (.operandKind m i (expectedKind m i))

/-- Operand `i` as an operator. -/
def readOp : Operand → Except AssemblyError OperatorRef
  | .op o => .ok o
  | _ => .error (.operandKind m i (expectedKind m i))

/-- Operand `i` as a jump target. -/
def readLabel : Operand → Except AssemblyError String
  | .label name => .ok name
  | _ => .error (.operandKind m i (expectedKind m i))

end

/-- The instruction made of a mnemonic and an operand list. The count is checked first, then each
operand in order. -/
def ofParts (m : Mnemonic) (ops : List Operand) : Except AssemblyError Instruction :=
  match m, ops with
  | .pushi, [a, b, c, d] =>
    return .pushi (← readSmall m 0 a) (← readReg m 1 b) (← readReg m 2 c) (← readInt m 3 d)
  | .popi, [a, b] => return .popi (← readSmall m 0 a) (← readReg m 1 b)
  | .mathi, [a, b, c, d, e] =>
    return .mathi (← readSmall m 0 a) (← readReg m 1 b) (← readReg m 2 c) (← readOp m 3 d)
      (← readInt m 4 e)
  | .seti, [a, b, c, d] =>
    return .seti (← readSmall m 0 a) (← readSmall m 1 b) (← readReg m 2 c) (← readInt m 3 d)
  | .synci, [a] => return .synci (← readInt m 0 a)
  | .waiti, [a, b] => return .waiti (← readSmall m 0 a) (← readInt m 1 b)
  | .bitwi, [a, b, c, d, e] =>
    return .bitwi (← readSmall m 0 a) (← readReg m 1 b) (← readReg m 2 c) (← readOp m 3 d)
      (← readInt m 4 e)
  | .memri, [a, b, c] =>
    return .memri (← readSmall m 0 a) (← readReg m 1 b) (← readInt m 2 c)
  | .memwi, [a, b, c] =>
    return .memwi (← readSmall m 0 a) (← readReg m 1 b) (← readInt m 2 c)
  | .regwi, [a, b, c] =>
    return .regwi (← readSmall m 0 a) (← readReg m 1 b) (← readInt m 2 c)
  | .setbi, [a, b, c] =>
    return .setbi (← readSmall m 0 a) (← readReg m 1 b) (← readInt m 2 c)
  | .loopnz, [a, b, c] =>
    return .loopnz (← readSmall m 0 a) (← readReg m 1 b) (← readLabel m 2 c)
  | .condj, [a, b, c, d, e] =>
    return .condj (← readSmall m 0 a) (← readReg m 1 b) (← readOp m 2 c) (← readReg m 3 d)
      (← readLabel m 4 e)
  | .halt, [] => return .halt
  | .math, [a, b, c, d, e] =>
    return .math (← readSmall m 0 a) (← readReg m 1 b) (← readReg m 2 c) (← readOp m 3 d)
      (← readReg m 4 e)
  | .set, [a, b, c, d, e, f, g, h] =>
    return .set (← readSmall m 0 a) (← readSmall m 1 b) (← readReg m 2 c) (← readReg m 3 d)
      (← readReg m 4 e) (← readReg m 5 f) (← readReg m 6 g) (← readReg m 7 h)
  | .sync, [a, b] => return .sync (← readSmall m 0 a) (← readReg m 1 b)
  | .read, [a, b, c, d] =>
    return .read (← readSmall m 0 a) (← readSmall m 1 b) (← readOp m 2 c) (← readReg m 3 d)
  | .wait, [a, b, c] =>
    return .wait (← readSmall m 0 a) (← readSmall m 1 b) (← readReg m 2 c)
  | .bitw, [a, b, c, d, e] =>
    return .bitw (← readSmall m 0 a) (← readReg m 1 b) (← readReg m 2 c) (← readOp m 3 d)
      (← readReg m 4 e)
  | .memr, [a, b, c] => return .memr (← readSmall m 0 a) (← readReg m 1 b) (← readReg m 2 c)
  | .memw, [a, b, c] => return .memw (← readSmall m 0 a) (← readReg m 1 b) (← readReg m 2 c)
  | .setb, [a, b, c] => return .setb (← readSmall m 0 a) (← readReg m 1 b) (← readReg m 2 c)
  | m, ops => .error (.operandCount m m.arity ops.length)

/-- The instruction made of a mnemonic's name and an operand list. -/
def ofNamedParts (name : String) (ops : List Operand) : Except AssemblyError Instruction :=
  match Mnemonic.ofName? name with
  | some m => ofParts m ops
  | none => .error (.unknownMnemonic name)

/-- The operands as a listing writes them. -/
def operandText (i : Instruction) : String :=
  i.mnemonic.layout.render (i.operands.map Operand.text)

end Instruction
end PulseProcessor
