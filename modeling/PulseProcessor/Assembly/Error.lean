import PulseProcessor.Isa.Mnemonic
import PulseProcessor.Json.Basic
import PulseProcessor.Register

/-!
# Errors of program construction

Every way in which building or encoding a program can fail, as a cause. `AssemblyError.message`
is the only place that words them.
-/

namespace PulseProcessor

open Isa (Mnemonic FieldKind)

/-- What is wrong with a register map. -/
inductive MapFault where
  | unreadable (e : Json.Error)
  | page (channel page : UInt8)
  | number (channel : UInt8) (name : PulseRegister) (number : UInt8)
  /-- Two parameters in one register, the earlier entry first. -/
  | shared (register : Register) (channel : UInt8) (name : PulseRegister) (other : UInt8)
      (otherName : PulseRegister)
  | channelTwice (channel : UInt8)
  | width (name : PulseRegister) (width : UInt32)
  deriving DecidableEq, Repr

def MapFault.message : MapFault → String
  | unreadable e => e.message
  | page channel p => s!"channel {channel} uses page {p}"
  | number channel name n => s!"channel {channel} `{name.name}` uses register {n}"
  | shared r channel name other otherName =>
    s!"register {r.text} shared by channel {channel} `{name.name}` " ++
      s!"and channel {other} `{otherName.name}`"
  | channelTwice channel => s!"channel {channel} listed twice"
  | width name w => s!"`{name.name}` width {w}"

/-- What is wrong with a pulse or a trigger. -/
inductive PulseFault where
  | length (length : Nat)
  | ramp (length : Nat)
  | value (name : PulseRegister) (value : Int) (width : Nat)
  | readout (line : UInt8)
  | marker (pin : UInt8)
  | triggerWidth (width : Int)
  deriving DecidableEq, Repr

/-- Pulse lengths stay below this: the mode word has 16 bits for them. -/
def maxLength : Nat := 1 <<< 16

def PulseFault.message : PulseFault → String
  | length n => s!"length {n} must be below {maxLength}"
  | ramp n => s!"ramp of {n} samples is too short"
  | value name v width => s!"{name.name} = {v} does not fit in {width} bits"
  | readout line => s!"no readout trigger {line}"
  | marker pin => s!"no marker pin {pin}"
  | triggerWidth w => s!"width {w}"

/-- Why a program cannot be built or encoded. -/
inductive AssemblyError where
  | unknownMnemonic (name : String)
  | unknownOperator (symbol : String)
  | unresolvedLabel (label : String) (pc : Nat) (mnemonic : Mnemonic)
  | invalidLabel (name : String)
  | duplicateLabel (name : String)
  | fieldOverflow (mnemonic : Mnemonic) (operand : Nat) (value : Int) (width : Nat)
  | operandCount (mnemonic : Mnemonic) (expected found : Nat)
  | operandKind (mnemonic : Mnemonic) (operand : Nat) (expected : FieldKind)
  | invalidSweepCount (name : String) (count : UInt32)
  | registerCollision (register : Register) (owner : String)
  | unknownChannel (channel : UInt8)
  | unknownPulseRegister (channel : UInt8) (register : PulseRegister)
  | invalidRegisterMap (fault : MapFault)
  | invalidPulse (name : String) (fault : PulseFault)
  deriving DecidableEq, Repr

def AssemblyError.message : AssemblyError → String
  | unknownMnemonic name => s!"unknown mnemonic `{name}`"
  | unknownOperator symbol => s!"unknown operator `{symbol}`"
  | unresolvedLabel label pc m =>
    s!"label `{label}` referenced by instruction {pc} ({m.name}) is never defined"
  | invalidLabel name => s!"`{name}` is not a valid label name"
  | duplicateLabel name => s!"label `{name}` is already defined"
  | fieldOverflow m operand value width =>
    s!"{m.name} operand {operand}: value {value} does not fit in {width} bits"
  | operandCount m expected found => s!"{m.name} takes {expected} operands, got {found}"
  | operandKind m operand expected => s!"{m.name} operand {operand} must be {expected.name}"
  | invalidSweepCount name count => s!"sweep `{name}` needs at least one iteration, got {count}"
  | registerCollision r owner =>
    s!"register ${r.number} on page {r.page} is already live in loop `{owner}`"
  | unknownChannel channel => s!"channel {channel} is not in the register map"
  | unknownPulseRegister channel r => s!"channel {channel} has no `{r.name}` register"
  | invalidRegisterMap fault => "invalid register map: " ++ fault.message
  | invalidPulse name fault => s!"invalid pulse `{name}`: {fault.message}"

end PulseProcessor
