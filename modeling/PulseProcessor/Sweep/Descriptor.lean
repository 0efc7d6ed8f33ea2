import PulseProcessor.Isa.Field
import PulseProcessor.Json.Printer
import PulseProcessor.Json.Record
import PulseProcessor.Register

/-!
# Sweep descriptors

A sweep is a counted loop that steps registers. A register's value in iteration `i` is its start
and `i` steps, kept to the bits that the register's user looks at.
-/

namespace PulseProcessor

namespace Register

def ofJson? (j : Json) : Option Register := do
  let [page, number] ← j.record? ["page", "reg"] | none
  return ⟨← Json.required page Json.byte?, ← Json.required number Json.byte?⟩

def toJson (r : Register) : Json :=
  .object [("page", .integer r.page.toNat), ("reg", .integer r.number.toNat)]

end Register

/-- A register that is stepped once in each iteration. -/
structure SweptRegister where
  register : Register
  start : Int
  step : Int
  /-- Bits of the value that count. -/
  width : Nat := registerWidth
  deriving DecidableEq, Repr

namespace SweptRegister

/-- Narrows the value. A value has at least one bit, and at most those of a register. -/
def withWidth (r : SweptRegister) (width : Nat) : SweptRegister :=
  { r with width := max 1 (min width registerWidth) }

/-- The value during iteration `i`. -/
def value (r : SweptRegister) (i : Nat) : UInt32 :=
  (Isa.wrap r.width (r.start + i * r.step)).toUInt32

def ofJson? (j : Json) : Option SweptRegister := do
  let [register, start, step, width] ← j.record? ["addr", "start", "step", "width"] | none
  return {
    register := ← Json.required register Register.ofJson?
    start := ← Json.required start Json.int64?
    step := ← Json.required step Json.int64?
    width := (← Json.optional width 32 Json.word32?).toNat }

def toJson (r : SweptRegister) : Json :=
  .object [("addr", r.register.toJson), ("start", .integer r.start), ("step", .integer r.step),
    ("width", .integer r.width)]

end SweptRegister

/-- A counted loop over any number of swept registers. -/
structure Sweep where
  /-- Name of the loop, and label of its first instruction. -/
  name : String
  count : UInt32
  /-- The register that counts down. -/
  counter : Register
  registers : List SweptRegister := []
  deriving DecidableEq, Repr

namespace Sweep

/-- Values of swept register `j` over the whole loop. -/
def values (s : Sweep) (j : Nat) : List UInt32 :=
  match s.registers[j]? with
  | none => []
  | some r => (List.range s.count.toNat).map r.value

/-- Values of all swept registers. -/
def points (s : Sweep) : List (List UInt32) :=
  s.registers.map fun r => (List.range s.count.toNat).map r.value

/-- The registers that the loop owns, its counter first. -/
def owned (s : Sweep) : List Register := s.counter :: s.registers.map (·.register)

def ofJson? (j : Json) : Option Sweep := do
  let [name, count, counter, registers] ←
    j.record? ["name", "count", "counter", "registers"] | none
  return {
    name := ← Json.required name Json.string?
    count := ← Json.required count Json.word32?
    counter := ← Json.required counter Register.ofJson?
    registers := ← Json.optional registers [] fun j => do
      (← j.array?).mapM SweptRegister.ofJson? }

def toJson (s : Sweep) : Json :=
  .object [("name", .string s.name), ("count", .integer s.count.toNat),
    ("counter", s.counter.toJson), ("registers", .array (s.registers.map (·.toJson)))]

end Sweep
end PulseProcessor
