import PulseProcessor.Isa.Field

/-!
# The instruction table

One row per mnemonic: its name, opcode, operand fields, fixed bits and the way its operands are
written in a listing. Encoding, decoding, operand checks and listings all read this table and
nothing else, so a layout is stated once.
-/

namespace PulseProcessor.Isa

/-- A mnemonic of the instruction set. -/
inductive Mnemonic where
  | pushi | popi | mathi | seti | synci | waiti | bitwi | memri | memwi | regwi | setbi
  | loopnz | condj | halt
  | math | set | sync | read | wait | bitw | memr | memw | setb
  deriving DecidableEq, Repr

/-- Instruction class of the decode stage. -/
inductive Format where
  /-- One immediate operand. -/
  | immediate
  /-- Jumps that read at most one register. -/
  | singleJump
  /-- Jumps that compare two registers. -/
  | compareJump
  /-- Registers only. -/
  | register
  deriving DecidableEq, Repr

/-- Everything the table says about one mnemonic. -/
structure Layout where
  name : String
  format : Format
  opcode : UInt8
  /-- Operand fields. An operand may occupy more than one field. -/
  fields : List Field
  /-- Bits set in every word of this mnemonic, beside opcode and operands. -/
  marker : Word
  /-- What a listing writes in front of each operand, in operand order. -/
  leads : List String
  deriving Repr

namespace Layout

/-- Number of operands. -/
def arity (l : Layout) : Nat := (l.fields.map (·.operand + 1)).foldl max 0

/-- Kind of an operand, taken from the first field it occupies. -/
def kind? (l : Layout) (operand : Nat) : Option FieldKind :=
  (l.fields.find? (·.operand == operand)).map (·.kind)

/-- Operand texts joined as a listing writes them. -/
def render (l : Layout) (texts : List String) : String :=
  String.join (List.zipWith (· ++ ·) l.leads texts)

/-- The listing form with a numbered placeholder for each operand. -/
def template (l : Layout) : String :=
  l.render ((List.range l.arity).map fun i => "\x7b" ++ toString i ++ "\x7d")

end Layout

/-- Position of the opcode byte. -/
def opcodeShift : Nat := 56

/-- Fixed bits of a counted jump. They sit where other jumps keep an operator. -/
def loopMarker : Word := (0b1000 : Word) <<< 46

/-- No mnemonic takes more operands than this. -/
def maxOperands : Nat := 8

namespace Mnemonic

/-- All mnemonics, in opcode order. -/
def all : List Mnemonic :=
  [pushi, popi, mathi, seti, synci, waiti, bitwi, memri, memwi, regwi, setbi,
   loopnz, condj, halt,
   math, set, sync, read, wait, bitw, memr, memw, setb]

section
open FieldKind

/-- The instruction table. -/
def layout : Mnemonic → Layout
  | pushi => ⟨"pushi", .immediate, 0x10,
      [⟨0, 53, page⟩, ⟨1, 41, register⟩, ⟨2, 36, register⟩, ⟨3, 0, immediate⟩], 0,
      ["", ", $", ", $", ", "]⟩
  | popi => ⟨"popi", .immediate, 0x11, [⟨0, 53, page⟩, ⟨1, 41, register⟩], 0, ["", ", $"]⟩
  | mathi => ⟨"mathi", .immediate, 0x12,
      [⟨0, 53, page⟩, ⟨1, 41, register⟩, ⟨2, 36, register⟩, ⟨3, 46, operator⟩, ⟨4, 0, immediate⟩],
      0, ["", ", $", ", $", " ", " "]⟩
  | seti => ⟨"seti", .immediate, 0x13,
      [⟨1, 53, page⟩, ⟨0, 50, channel⟩, ⟨2, 36, register⟩, ⟨3, 0, immediate⟩], 0,
      ["", ", ", ", $", ", "]⟩
  | synci => ⟨"synci", .immediate, 0x14, [⟨0, 0, immediate⟩], 0, [""]⟩
  | waiti => ⟨"waiti", .immediate, 0x15, [⟨0, 50, channel⟩, ⟨1, 0, immediate⟩], 0, ["", ", "]⟩
  | bitwi => ⟨"bitwi", .immediate, 0x16,
      [⟨0, 53, page⟩, ⟨3, 46, operator⟩, ⟨1, 41, register⟩, ⟨2, 36, register⟩, ⟨4, 0, immediate⟩],
      0, ["", ", $", ", $", " ", " "]⟩
  | memri => ⟨"memri", .immediate, 0x17,
      [⟨0, 53, page⟩, ⟨1, 41, register⟩, ⟨2, 0, immediate⟩], 0, ["", ", $", ", "]⟩
  | memwi => ⟨"memwi", .immediate, 0x18,
      [⟨0, 53, page⟩, ⟨1, 31, register⟩, ⟨2, 0, immediate⟩], 0, ["", ", $", ", "]⟩
  | regwi => ⟨"regwi", .immediate, 0x19,
      [⟨0, 53, page⟩, ⟨1, 41, register⟩, ⟨2, 0, immediate⟩], 0, ["", ", $", ", "]⟩
  | setbi => ⟨"setbi", .immediate, 0x1a,
      [⟨0, 53, page⟩, ⟨1, 41, register⟩, ⟨2, 0, immediate⟩], 0, ["", ", $", ", "]⟩
  | loopnz => ⟨"loopnz", .singleJump, 0x30,
      [⟨0, 53, page⟩, ⟨1, 41, register⟩, ⟨1, 36, register⟩, ⟨2, 0, target⟩], loopMarker,
      ["", ", $", ", @"]⟩
  | condj => ⟨"condj", .compareJump, 0x31,
      [⟨0, 53, page⟩, ⟨2, 46, operator⟩, ⟨1, 36, register⟩, ⟨3, 31, register⟩, ⟨4, 0, target⟩], 0,
      ["", ", $", ", ", ", $", ", @"]⟩
  | halt => ⟨"end", .singleJump, 0x3f, [], 0, []⟩
  | math => ⟨"math", .register, 0x50,
      [⟨0, 53, page⟩, ⟨3, 46, operator⟩, ⟨1, 41, register⟩, ⟨2, 36, register⟩, ⟨4, 31, register⟩],
      0, ["", ", $", ", $", " ", " $"]⟩
  | set => ⟨"set", .register, 0x51,
      [⟨1, 53, page⟩, ⟨0, 50, channel⟩, ⟨2, 36, register⟩, ⟨7, 31, register⟩, ⟨3, 26, register⟩,
       ⟨4, 21, register⟩, ⟨5, 16, register⟩, ⟨6, 11, register⟩], 0,
      ["", ", ", ", $", ", $", ", $", ", $", ", $", ", $"]⟩
  | sync => ⟨"sync", .register, 0x52, [⟨0, 53, page⟩, ⟨1, 31, register⟩], 0, ["", ", $"]⟩
  | read => ⟨"read", .register, 0x53,
      [⟨1, 53, page⟩, ⟨0, 50, channel⟩, ⟨2, 46, operator⟩, ⟨3, 41, register⟩], 0,
      ["", ", ", ", ", " $"]⟩
  | wait => ⟨"wait", .register, 0x54,
      [⟨1, 53, page⟩, ⟨0, 50, channel⟩, ⟨2, 31, register⟩], 0, ["", ", ", ", $"]⟩
  | bitw => ⟨"bitw", .register, 0x55,
      [⟨0, 53, page⟩, ⟨1, 41, register⟩, ⟨2, 36, register⟩, ⟨3, 46, operator⟩, ⟨4, 31, register⟩],
      0, ["", ", $", ", $", " ", " $"]⟩
  | memr => ⟨"memr", .register, 0x56,
      [⟨0, 53, page⟩, ⟨1, 41, register⟩, ⟨2, 36, register⟩], 0, ["", ", $", ", $"]⟩
  | memw => ⟨"memw", .register, 0x57,
      [⟨0, 53, page⟩, ⟨2, 36, register⟩, ⟨1, 31, register⟩], 0, ["", ", $", ", $"]⟩
  | setb => ⟨"setb", .register, 0x58,
      [⟨0, 53, page⟩, ⟨2, 36, register⟩, ⟨1, 31, register⟩], 0, ["", ", $", ", $"]⟩

end

/-- The name that listings write. -/
def name (m : Mnemonic) : String := m.layout.name

def opcode (m : Mnemonic) : UInt8 := m.layout.opcode

def arity (m : Mnemonic) : Nat := m.layout.arity

/-- The mnemonic with a given name. -/
def ofName? (s : String) : Option Mnemonic := all.find? (·.name == s)

/-- The mnemonic that owns an opcode. -/
def ofOpcode? (b : UInt8) : Option Mnemonic := all.find? (·.opcode == b)

theorem mem_all (m : Mnemonic) : m ∈ all := by cases m <;> decide

/-- Names are pairwise distinct. -/
theorem ofName?_name (m : Mnemonic) : ofName? m.name = some m := by cases m <;> decide

/-- Opcodes are pairwise distinct. -/
theorem ofOpcode?_opcode (m : Mnemonic) : ofOpcode? m.opcode = some m := by cases m <;> decide

/-- A listing has one lead for each operand. -/
theorem length_leads (m : Mnemonic) : m.layout.leads.length = m.arity := by cases m <;> decide

theorem arity_le (m : Mnemonic) : m.arity ≤ maxOperands := by cases m <;> decide

/-- Every operand occupies some field. -/
theorem kind?_isSome (m : Mnemonic) :
    ∀ i < m.arity, (m.layout.kind? i).isSome = true := by cases m <;> decide

end Mnemonic
end PulseProcessor.Isa
