/-!
# Operand fields

An instruction is one 64-bit word: the opcode sits in the top byte and the operands in fixed bit
fields below it. This module says how wide a field of each kind is, which integers fit it, and how
a value is put into a word and read back.
-/

namespace PulseProcessor

/-- A 64-bit instruction or sample word. -/
abbrev Word := UInt64

namespace Isa

/-- What an operand field holds. -/
inductive FieldKind where
  /-- Register page number. -/
  | page
  /-- Output channel number. -/
  | channel
  /-- Register number within a page. -/
  | register
  /-- Operator code. -/
  | operator
  /-- Two's complement immediate. -/
  | immediate
  /-- Program counter of a jump target. -/
  | target
  deriving DecidableEq, Repr

namespace FieldKind

/-- The kind alone fixes the width of a field, in bits. -/
def width : FieldKind → Nat
  | page | channel => 3
  | register => 5
  | operator => 4
  | immediate => 31
  | target => 16

/-- The kind's name, as error messages write it. -/
def name : FieldKind → String
  | page => "Page"
  | channel => "Channel"
  | register => "Register"
  | operator => "Operator"
  | immediate => "Immediate"
  | target => "Target"

/-- The least value a field of this kind holds: immediates are signed, all other fields are not. -/
def least : FieldKind → Int
  | immediate => -(1 <<< 30 : Nat)
  | _ => 0

/-- A value fits a field of this kind. An immediate may be written signed or as its bit pattern, so
its range reaches from the least negative value up to the largest pattern. -/
def Fits (k : FieldKind) (v : Int) : Prop := k.least ≤ v ∧ v < (1 <<< k.width : Nat)

instance (k : FieldKind) (v : Int) : Decidable (k.Fits v) := by unfold Fits; infer_instance

/-- The bit pattern that stands for `v` in a field of this kind, if it fits. -/
def pattern? (k : FieldKind) (v : Int) : Option Word :=
  if k.Fits v then some (UInt64.ofNat (v % (1 <<< k.width : Nat)).toNat) else none

theorem pattern?_eq_none_iff {k : FieldKind} {v : Int} : k.pattern? v = none ↔ ¬ k.Fits v := by
  simp [pattern?]

end FieldKind

/-- Placement of one operand inside the instruction word. -/
structure Field where
  /-- Index of the operand in the operand list. -/
  operand : Nat
  /-- Position of the field's least significant bit. -/
  offset : Nat
  kind : FieldKind
  deriving DecidableEq, Repr

namespace Field

def width (f : Field) : Nat := f.kind.width

/-- The field's bits, in place. -/
def mask (f : Field) : Word := (UInt64.ofNat ((1 <<< f.width) - 1)) <<< UInt64.ofNat f.offset

/-- The pattern that a word holds in this field. -/
def extract (f : Field) (w : Word) : Word := (w &&& f.mask) >>> UInt64.ofNat f.offset

/-- A pattern moved to the field's position; bits above the field's width are dropped. -/
def place (f : Field) (raw : Word) : Word := (raw <<< UInt64.ofNat f.offset) &&& f.mask

end Field

/-- The signed value of an immediate's bit pattern: bit 30 carries the weight `-2 ^ 30`. -/
def immediateValue (raw : Word) : Int :=
  let v := raw.toInt64.toInt
  if raw.toNat.testBit 30 then v - (1 <<< 31 : Nat) else v

/-- A value as a register of `width` bits holds it. Nothing is wider than a word. -/
def wrap (width : Nat) (v : Int) : Word := UInt64.ofNat (v % (1 <<< min width 64 : Nat)).toNat

end Isa
end PulseProcessor
