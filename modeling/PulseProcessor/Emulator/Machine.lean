import PulseProcessor.Isa.DataMemory
import PulseProcessor.Register

/-!
# Machine states

The state that programs act on: eight pages of 32 registers, data memory, the program counter, the
time offset that `sync` instructions advance, and the channel updates recorded so far.

An instruction acts through one `Effect`. Register 0 of a page is never written, so it reads zero
for good. Whatever can go wrong with an instruction is found before there is an effect, so a
failing instruction leaves no trace.
-/

namespace PulseProcessor

/-- A channel update. Times are absolute. -/
inductive Event where
  /-- All pulse registers of a channel take effect. -/
  | set (channel : UInt8) (time : Int) (freq phase addr gain mode : UInt32)
  /-- One value is put out on a channel. -/
  | seti (channel : UInt8) (time : Int) (value : UInt32)
  deriving DecidableEq, Repr

namespace Event

def channel : Event → UInt8
  | set channel .. => channel
  | seti channel .. => channel

def time : Event → Int
  | set _ time .. => time
  | seti _ time _ => time

end Event

/-- The state of the processor. -/
structure Machine where
  /-- All pages one behind the other. -/
  registers : Vector UInt32 256 := Vector.replicate 256 0
  memory : Vector UInt32 1024 := Vector.replicate 1024 0
  pc : Nat := 0
  timeOffset : Int := 0
  events : Array Event := #[]
  halted : Bool := false

/-- What one instruction does to a machine. The program counter moves on unless said otherwise. -/
inductive Effect where
  | nothing
  | write (page reg : Nat) (v : UInt32)
  | store (addr : Nat) (h : addr < 1024) (v : UInt32)
  | jump (target : Nat)
  /-- A counted jump: the counter is written and the jump taken. -/
  | countedJump (page reg : Nat) (v : UInt32) (target : Nat)
  | advance (dt : Int)
  | emit (e : Event)
  | halt

namespace Machine

/-- Where a register is kept. Page and number count modulo the numbers there are. -/
def slot (page reg : Nat) : Fin 256 := ⟨page % 8 * 32 + reg % 32, by omega⟩

def read (s : Machine) (page reg : Nat) : UInt32 := s.registers[slot page reg]

/-- Writes a register, unless it is register 0 of its page. -/
def write (s : Machine) (page reg : Nat) (v : UInt32) : Machine :=
  if reg = 0 then s else { s with registers := s.registers.set (slot page reg) v }

/-- A word of data memory, if the address is in range. -/
def load? (s : Machine) (addr : Nat) : Option UInt32 := s.memory[addr]?

/-- Pages, numbers and values of the registers that are not zero, in their order. -/
def nonzeroRegisters (s : Machine) : List (Nat × Nat × UInt32) :=
  (List.range pageCount).flatMap fun page =>
    (List.range registersPerPage).filterMap fun reg =>
      let v := s.read page reg
      if v = 0 then none else some (page, reg, v)

/-- Addresses and values of the words of data memory that are not zero, in their order. -/
def nonzeroWords (s : Machine) : List (Nat × UInt32) :=
  (List.range dataMemoryDepth).filterMap fun addr =>
    match s.load? addr with
    | some v => if v = 0 then none else some (addr, v)
    | none => none

/-- Applies the effect of the instruction at the program counter. -/
def apply (s : Machine) : Effect → Machine
  | .nothing => { s with pc := s.pc + 1 }
  | .write page reg v => let s := { s with pc := s.pc + 1 }; s.write page reg v
  | .store addr h v => { s with pc := s.pc + 1, memory := s.memory.set addr v h }
  | .jump target => { s with pc := target }
  | .countedJump page reg v target => let s := { s with pc := target }; s.write page reg v
  | .advance dt => { s with pc := s.pc + 1, timeOffset := s.timeOffset + dt }
  | .emit e => { s with pc := s.pc + 1, events := s.events.push e }
  | .halt => { s with pc := s.pc + 1, halted := true }

end Machine
end PulseProcessor
