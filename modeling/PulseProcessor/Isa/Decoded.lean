import PulseProcessor.Isa.Mnemonic

/-!
# Decoded words

A word is decoded by its opcode byte alone: every word whose opcode is in the table is an
instruction, whatever its other bits are. Operands are read out of their fields as bit patterns.
-/

namespace PulseProcessor.Isa

/-- A word together with the mnemonic its opcode names. -/
structure Decoded where
  mnemonic : Mnemonic
  word : Word
  deriving DecidableEq, Repr

/-- The opcode byte of a word. -/
def opcodeOf (w : Word) : UInt8 := (w >>> 56).toUInt8

/-- A word as an instruction, if its opcode is in the table. -/
def decode? (w : Word) : Option Decoded :=
  (Mnemonic.ofOpcode? (opcodeOf w)).map fun m => ⟨m, w⟩

namespace Decoded

/-- The bit pattern of an operand. Of two fields that hold one operand the later one is read, and
an operand without a field reads zero. -/
def operand (d : Decoded) (i : Nat) : Word :=
  d.mnemonic.layout.fields.foldl (fun raw f => if f.operand = i then f.extract d.word else raw) 0

/-- The patterns of all operands, in operand order. -/
def operands (d : Decoded) : List Word := (List.range d.mnemonic.arity).map d.operand

end Decoded
end PulseProcessor.Isa
