import PulseProcessor.Assembly.Program
import PulseProcessor.Pulse.Descriptor
import PulseProcessor.RegisterMap
import PulseProcessor.Text.Digits

/-!
# Sequencing pulses

A sequencer writes the code of pulses into a program and remembers, for each channel, when its
last pulse ends, so that pulses can follow one another without gaps. All times count from the
current sync point, which `syncAll` and `delay` move.

An operation that fails answers with an error and no sequencer: the caller still holds the one it
had, with its program and its timestamps.
-/

namespace PulseProcessor

/-- Longest delay that one `synci` is used for. -/
def maxSync : Nat := (1 <<< 14) - 1

/-- The channel that drives trigger and marker lines. -/
def triggerChannel : UInt8 := 0

/-- Scratch register for the pattern on these lines. -/
def triggerRegister : Register := ⟨0, 31⟩

/-- Line of the first readout trigger; the markers lie below it. -/
def readoutTriggerBit : Nat := 14

def readoutTriggerCount : Nat := 2

/-- Cycles for which a readout trigger stays high after its pulse. -/
def triggerTail : Int := 10

/-- When a pulse starts. -/
inductive Start where
  /-- Right after the previous pulse on the channel. -/
  | auto
  | at (t : Int)
  deriving DecidableEq, Repr

/-- A program with the times at which the channels become free. -/
structure Sequencer where
  program : Program := {}
  timestamps : List (UInt8 × Int) := []
  deriving DecidableEq, Repr

namespace Sequencer

/-- End of the last pulse on a channel. -/
def timestamp (s : Sequencer) (channel : UInt8) : Int :=
  ((s.timestamps.find? (·.1 == channel)).map (·.2)).getD 0

def setTimestamp (s : Sequencer) (channel : UInt8) (t : Int) : Sequencer :=
  { s with timestamps := (channel, t) :: s.timestamps.filter (·.1 != channel) }

/-- The time at which a pulse starts. -/
def startTime (s : Sequencer) (channel : UInt8) : Start → Int
  | .auto => s.timestamp channel
  | .at t => t

/-! ### Code of a single pulse -/

section
variable (map : ChannelMap) (pulse : Pulse)

/-- Loads a parameter of the pulse's channel. The value has to fit the parameter's width. -/
def writeRegister (p : Program) (name : PulseRegister) (v : Int) :
    Except AssemblyError Program := do
  let r ← map.register pulse.channel name
  let width := map.width name
  if v < 0 ∨ v ≥ (1 <<< width : Nat) then throw (.invalidPulse pulse.name (.value name v width))
  return p.loadConstant r.page r.number v (some s!"{name.name} = {v}")

/-- Latches the channel's registers at time `t`. -/
def emitSet (p : Program) (t : Int) : Except AssemblyError Program := do
  let p ← writeRegister map pulse p .time t
  let ch := pulse.channel
  let number (name : PulseRegister) : Except AssemblyError UInt8 :=
    (map.register ch name).map (·.number)
  let page ← map.page ch
  let set := Instruction.set ch page (← number .freq) (← number .phase) (← number .addr)
    (← number .gain) (← number .mode) (← number .time)
  return p.append set (some s!"ch = {ch} {pulse.name} @t = {t}")

/-- Writes address and mode of a segment. -/
def emitSegment (p : Program) (addr : Int) (length : Nat) (output : OutputSelect) :
    Except AssemblyError Program := do
  let mode ← pulse.mode output length
  let p ← writeRegister map pulse p .addr addr
  writeRegister map pulse p .mode mode

/-- Writes frequency, phase and gain, and for pulses of one segment its address and mode. -/
def emitSetup (p : Program) : Except AssemblyError Program := do
  let p ← writeRegister map pulse p .freq pulse.freq
  let p ← writeRegister map pulse p .phase pulse.phase
  let p ← writeRegister map pulse p .gain pulse.gain
  match pulse.style with
  | .constant => emitSegment map pulse p 0 pulse.length.toNat .dds
  | .arbitrary => emitSegment map pulse p pulse.addr pulse.length.toNat .product
  | .flatTop _ => return p

/-- Segments one behind the other, the first at time `t`: address, length and source of each. -/
def emitSegments (p : Program) (t : Int) :
    List (Int × Nat × OutputSelect) → Except AssemblyError Program
  | [] => .ok p
  | (addr, length, output) :: rest => do
    let p ← emitSegment map pulse p addr length output
    let p ← emitSet map pulse p t
    emitSegments p (t + length) rest

/-- Starts the pulse at time `t`. The ramps of a flat-top pulse are the two halves of one
envelope. -/
def emitPlay (p : Program) (t : Int) : Except AssemblyError Program :=
  match pulse.style with
  | .constant | .arbitrary => emitSet map pulse p t
  | .flatTop ramp =>
    let half := Pulse.rampHalf ramp
    if half = 0 then .error (.invalidPulse pulse.name (.ramp ramp.toNat))
    else
      emitSegments map pulse p t
        [(pulse.addr, half, .product), (0, pulse.length.toNat, .dds),
         (pulse.addr + half, half, .product)]

end

/-! ### Triggers -/

/-- Why an operation on the trigger lines is refused. -/
def triggerError (fault : PulseFault) : AssemblyError := .invalidPulse "trigger" fault

/-- The pattern with the lines of readouts raised, on top of a given one. -/
def readoutPattern (pattern : Nat) : List UInt8 → Except AssemblyError Nat
  | [] => .ok pattern
  | line :: rest =>
    if line.toNat ≥ readoutTriggerCount then .error (triggerError (.readout line))
    else readoutPattern (pattern ||| (1 <<< (readoutTriggerBit + line.toNat))) rest

/-- The pattern with marker pins raised, on top of a given one. -/
def markerPattern (pattern : Nat) : List UInt8 → Except AssemblyError Nat
  | [] => .ok pattern
  | pin :: rest =>
    if pin.toNat ≥ readoutTriggerBit then .error (triggerError (.marker pin))
    else markerPattern (pattern ||| (1 <<< pin.toNat)) rest

/-- Raises lines at `t` and lowers them `width` cycles later. -/
def emitTrigger (p : Program) (readouts markers : List UInt8) (t width : Int) :
    Except AssemblyError Program := do
  let pattern ← markerPattern (← readoutPattern 0 readouts) markers
  if width ≤ 0 then throw (triggerError (.triggerWidth width))
  let ⟨page, reg⟩ := triggerRegister
  let p := p.append (.regwi page reg pattern) (some s!"out = {Text.bin 16 pattern}")
  let p := p.append (.seti triggerChannel page reg t)
    (some s!"ch = {triggerChannel} out = ${reg} @t = {t}")
  return p.append (.seti triggerChannel page 0 (t + width))
    (some s!"ch = {triggerChannel} out = 0 @t = {t + width}")

/-! ### Operations -/

section
variable (map : ChannelMap)

/-- Writes the registers of a pulse. -/
def setup (s : Sequencer) (pulse : Pulse) : Except AssemblyError Sequencer := do
  return { s with program := ← emitSetup map pulse s.program }

/-- Schedules a pulse whose registers are set up, and answers with its start time. -/
def play (s : Sequencer) (pulse : Pulse) (start : Start) :
    Except AssemblyError (Sequencer × Int) := do
  let t := s.startTime pulse.channel start
  let p ← emitPlay map pulse s.program t
  return ({ s with program := p }.setTimestamp pulse.channel (t + pulse.duration), t)

/-- Sets up a pulse and schedules it. -/
def pulse (s : Sequencer) (pulse : Pulse) (start : Start) :
    Except AssemblyError (Sequencer × Int) := do
  (← s.setup map pulse).play map pulse start

/-- Raises readout triggers and marker pins. -/
def trigger (s : Sequencer) (readouts markers : List UInt8) (t width : Int) :
    Except AssemblyError Sequencer := do
  return { s with program := ← emitTrigger s.program readouts markers t width }

/-- Plays a readout pulse. The triggers of the given readouts rise `offset` cycles after its start
and stay high for the pulse and a tail. -/
def measure (s : Sequencer) (pulse : Pulse) (readouts : List UInt8) (offset : Int)
    (start : Start) : Except AssemblyError (Sequencer × Int) := do
  let t := s.startTime pulse.channel start
  let s ← s.trigger readouts [] (t + offset) (pulse.duration + triggerTail)
  s.pulse map pulse (.at t)

end

/-- Moves the sync point past every scheduled pulse and `extra` cycles more. -/
def syncAll (s : Sequencer) (extra : Int) : Sequencer :=
  let last := match (s.timestamps.map (·.2)).max? with
    | some t => t
    | none => 0
  if last + extra > 0 then
    { program := s.program.append (.synci (last + extra)), timestamps := [] }
  else s

/-- The steps into which a wait is split: all but the last are as long as a step can be. -/
def delaySteps (cycles : Int) : List Int :=
  if cycles ≤ 0 then []
  else
    let full := (cycles - 1) / maxSync
    List.replicate full.toNat (maxSync : Int) ++ [cycles - full * maxSync]

/-- Moves the sync point past every scheduled pulse, then waits. -/
def delay (s : Sequencer) (cycles : Int) : Sequencer :=
  let s := s.syncAll 0
  { s with program := (delaySteps cycles).foldl (fun p t => p.append (.synci t)) s.program }

/-- An operation of a sequencer, as data. -/
inductive Call where
  | setup (pulse : Pulse)
  | play (pulse : Pulse) (start : Start)
  | pulse (pulse : Pulse) (start : Start)
  | measure (pulse : Pulse) (readouts : List UInt8) (offset : Int) (start : Start)
  | trigger (readouts markers : List UInt8) (t width : Int)
  | syncAll (extra : Int)
  | delay (cycles : Int)

/-- Carries out an operation. Those that schedule a pulse answer with its start time. -/
def perform (map : ChannelMap) (s : Sequencer) :
    Call → Except AssemblyError (Sequencer × Option Int)
  | .setup pulse => return (← s.setup map pulse, none)
  | .play pulse start => (s.play map pulse start).map fun (s, t) => (s, some t)
  | .pulse pulse start => (s.pulse map pulse start).map fun (s, t) => (s, some t)
  | .measure pulse readouts offset start =>
    (s.measure map pulse readouts offset start).map fun (s, t) => (s, some t)
  | .trigger readouts markers t width => return (← s.trigger readouts markers t width, none)
  | .syncAll extra => return (s.syncAll extra, none)
  | .delay cycles => return (s.delay cycles, none)

end Sequencer
end PulseProcessor
