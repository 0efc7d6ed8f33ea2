/-!
# Registers

The processor has eight pages of 32 registers. Each output channel keeps the parameters of its
pulses in registers of one page; which registers these are is for the register map to say.
-/

namespace PulseProcessor

/-- Width of a register in bits. -/
def registerWidth : Nat := 32

def pageCount : Nat := 8

def registersPerPage : Nat := 32

/-- A register, by page and number. -/
structure Register where
  page : UInt8
  number : UInt8
  deriving DecidableEq, Repr

/-- The page, a colon, and the number behind a dollar sign. -/
def Register.text (r : Register) : String := s!"{r.page}:${r.number}"

/-- A pulse parameter that a channel keeps in a register. -/
inductive PulseRegister where
  | freq | phase | addr | gain | mode
  /-- Start time of the next pulse. -/
  | time
  | adcFreq
  deriving DecidableEq, Repr

namespace PulseRegister

/-- All parameters, in the order in which maps list them. -/
def all : List PulseRegister := [freq, phase, addr, gain, mode, time, adcFreq]

def name : PulseRegister → String
  | freq => "freq"
  | phase => "phase"
  | addr => "addr"
  | gain => "gain"
  | mode => "mode"
  | time => "t"
  | adcFreq => "adc_freq"

def ofName? (s : String) : Option PulseRegister := all.find? (·.name == s)

theorem mem_all (r : PulseRegister) : r ∈ all := by cases r <;> decide

theorem ofName?_name (r : PulseRegister) : ofName? r.name = some r := by cases r <;> decide

end PulseRegister
end PulseProcessor
