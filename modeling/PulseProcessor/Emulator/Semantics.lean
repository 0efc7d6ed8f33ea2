import PulseProcessor.Emulator.Machine
import PulseProcessor.Isa.Decoded
import PulseProcessor.Text.Digits

/-!
# What instructions do

The effect of a decoded word on a machine. Registers are 32-bit words that wrap around, branches
compare them as signed numbers, and an operator code has a meaning only in the class of its
mnemonic.
-/

namespace PulseProcessor

open Isa (Mnemonic Decoded immediateValue)

/-- Why a program stops without reaching its end. -/
inductive EmulatorError where
  | invalidOpcode (pc : Nat) (word : Word)
  | unsupported (pc : Nat) (mnemonic : Mnemonic)
  | invalidOperator (pc : Nat) (mnemonic : Mnemonic) (code : Nat)
  | stepLimit (limit : Nat)
  | pcOutOfRange (pc : Nat)
  | memoryOutOfRange (pc addr : Nat)
  deriving DecidableEq, Repr

def EmulatorError.message : EmulatorError → String
  | invalidOpcode pc word => s!"word {Text.hex 16 word.toNat} at pc {pc} has no valid opcode"
  | unsupported pc m => s!"{m.name} at pc {pc} is not supported by the emulator"
  | invalidOperator pc m code =>
    s!"operator code {Text.bin 4 code} is not valid for {m.name} at pc {pc}"
  | stepLimit limit => s!"program did not reach `end` within {limit} steps"
  | pcOutOfRange pc => s!"program counter {pc} is past the last instruction"
  | memoryOutOfRange pc addr => s!"data memory address {addr} out of range at pc {pc}"

/-! ### Operators -/

/-- Sums, differences and products, modulo `2 ^ 32`. -/
def arithmetic? (code : Nat) (a b : UInt32) : Option UInt32 :=
  match code with
  | 8 => some (a + b)
  | 9 => some (a - b)
  | 10 => some (a * b)
  | _ => none

/-- Bitwise operators. Complement takes the right operand; a shift by the width or more gives
zero. -/
def bitwise? (code : Nat) (a b : UInt32) : Option UInt32 :=
  match code with
  | 0 => some (a &&& b)
  | 1 => some (a ||| b)
  | 2 => some (a ^^^ b)
  | 3 => some (~~~ b)
  | 4 => some (if b < 32 then a <<< b else 0)
  | 5 => some (if b < 32 then a >>> b else 0)
  | _ => none

/-- Comparisons of signed numbers. -/
def compare? (code : Nat) (a b : Int) : Option Bool :=
  match code with
  | 0 => some (a > b)
  | 1 => some (a ≥ b)
  | 2 => some (a < b)
  | 3 => some (a ≤ b)
  | 4 => some (a = b)
  | 5 => some (a ≠ b)
  | _ => none

/-- A register's value as a signed number. -/
def signed (v : UInt32) : Int := v.toInt32.toInt

/-- An immediate as a register holds it. -/
def immediateWord (raw : Word) : UInt32 := UInt32.ofNat (immediateValue raw % UInt32.size).toNat

namespace Machine

/-- The effect of a decoded word, or why it has none. -/
def effect (s : Machine) (d : Decoded) : Except EmulatorError Effect :=
  let o (i : Nat) : Nat := (d.operand i).toNat
  let imm (i : Nat) : UInt32 := immediateWord (d.operand i)
  let operator {α : Type} (code : Nat) (r : Option α) : Except EmulatorError α :=
    match r with
    | some a => .ok a
    | none => .error (.invalidOperator s.pc d.mnemonic code)
  let store (addr : Nat) (v : UInt32) : Except EmulatorError Effect :=
    if h : addr < 1024 then .ok (.store addr h v) else .error (.memoryOutOfRange s.pc addr)
  let load (addr : Nat) : Except EmulatorError UInt32 :=
    match s.load? addr with
    | some v => .ok v
    | none => .error (.memoryOutOfRange s.pc addr)
  match d.mnemonic with
  | .regwi => .ok (.write (o 0) (o 1) (imm 2))
  | .mathi => do
    return .write (o 0) (o 1) (← operator (o 3) (arithmetic? (o 3) (s.read (o 0) (o 2)) (imm 4)))
  | .math => do
    return .write (o 0) (o 1)
      (← operator (o 3) (arithmetic? (o 3) (s.read (o 0) (o 2)) (s.read (o 0) (o 4))))
  | .bitwi => do
    return .write (o 0) (o 1) (← operator (o 3) (bitwise? (o 3) (s.read (o 0) (o 2)) (imm 4)))
  | .bitw => do
    return .write (o 0) (o 1)
      (← operator (o 3) (bitwise? (o 3) (s.read (o 0) (o 2)) (s.read (o 0) (o 4))))
  | .memwi => store (o 2) (s.read (o 0) (o 1))
  | .memri => return .write (o 0) (o 1) (← load (o 2))
  | .memw => store (s.read (o 0) (o 2)).toNat (s.read (o 0) (o 1))
  | .memr => return .write (o 0) (o 1) (← load (s.read (o 0) (o 2)).toNat)
  | .loopnz =>
    let count := s.read (o 0) (o 1)
    .ok (if count = 0 then .nothing else .countedJump (o 0) (o 1) (count - 1) (o 2))
  | .condj => do
    let taken ← operator (o 2)
      (compare? (o 2) (signed (s.read (o 0) (o 1))) (signed (s.read (o 0) (o 3))))
    return if taken then .jump (o 4) else .nothing
  | .halt => .ok .halt
  | .set =>
    let r (i : Nat) : UInt32 := s.read (o 1) (o i)
    .ok (.emit (.set (UInt8.ofNat (o 0)) ((r 7).toNat + s.timeOffset) (r 2) (r 3) (r 4) (r 5)
      (r 6)))
  | .seti =>
    .ok (.emit (.seti (UInt8.ofNat (o 0)) (immediateValue (d.operand 3) + s.timeOffset)
      (s.read (o 1) (o 2))))
  | .synci => .ok (.advance (immediateValue (d.operand 0)))
  | .sync => .ok (.advance (s.read (o 0) (o 1)).toNat)
  | .waiti | .wait => .ok .nothing
  | .setbi | .setb | .pushi | .popi | .read => .error (.unsupported s.pc d.mnemonic)

end Machine
end PulseProcessor
