import PulseProcessor.Assembly.InPlace
import PulseProcessor.Pulse.Sequencer

/-!
# Sequencing pulses in place

The operations of a sequencer in place, on a sequencer that its caller goes on holding.  An
operation may fail when part of its code is written.  What it has written is then dropped; the
timestamps need no such care, since they are changed last.
-/

namespace PulseProcessor
namespace Sequencer.InPlace

open Program.InPlace (append loadConstant)

variable {n : Type → Type} [Monad n]

/-- Edits the program. -/
def onProgram {α : Type} (e : EditT Program n α) : EditT Sequencer n α :=
  e.on (·.program) fun s program => { s with program }

/-- Works on a program through a new sequencer. -/
def session {α : Type} (e : EditT Sequencer n α) : EditT Program n α :=
  e.on (fun program => { program }) fun _ s => s.program

/-- Drops what an edit has written if it fails. -/
def atomic {α : Type} (e : EditT Sequencer n α) : EditT Sequencer n α := do
  let checkpoint := (← get).program.checkpoint
  match ← e.attempt with
  | .ok a => return a
  | .error err =>
    modify fun s => { s with program := s.program.rollback checkpoint }
    throw err

/-! ### Code of a single pulse -/

section
variable (map : ChannelMap) (pulse : Pulse)

/-- Loads a parameter of the pulse's channel. The value has to fit the parameter's width. -/
def writeRegister (name : PulseRegister) (v : Int) : EditT Sequencer n Unit := do
  let r ← EditT.answer (map.register pulse.channel name)
  let width := map.width name
  if v < 0 ∨ v ≥ (1 <<< width : Nat) then throw (.invalidPulse pulse.name (.value name v width))
  discard <| onProgram <| loadConstant r.page r.number v (some s!"{name.name} = {v}")

/-- Latches the channel's registers at time `t`. -/
def emitSet (t : Int) : EditT Sequencer n Unit := do
  writeRegister map pulse .time t
  let ch := pulse.channel
  let number (name : PulseRegister) : EditT Sequencer n UInt8 :=
    EditT.answer ((map.register ch name).map (·.number))
  let page ← EditT.answer (map.page ch)
  let set := Instruction.set ch page (← number .freq) (← number .phase) (← number .addr)
    (← number .gain) (← number .mode) (← number .time)
  discard <| onProgram <| append set (some s!"ch = {ch} {pulse.name} @t = {t}")

/-- Writes address and mode of a segment. -/
def emitSegment (addr : Int) (length : Nat) (output : OutputSelect) :
    EditT Sequencer n Unit := do
  let mode ← EditT.answer (pulse.mode output length)
  writeRegister map pulse .addr addr
  writeRegister map pulse .mode mode

/-- Writes frequency, phase and gain, and for pulses of one segment its address and mode. -/
def emitSetup : EditT Sequencer n Unit := do
  writeRegister map pulse .freq pulse.freq
  writeRegister map pulse .phase pulse.phase
  writeRegister map pulse .gain pulse.gain
  match pulse.style with
  | .constant => emitSegment map pulse 0 pulse.length.toNat .dds
  | .arbitrary => emitSegment map pulse pulse.addr pulse.length.toNat .product
  | .flatTop _ => return

/-- Segments one behind the other, the first at time `t`. -/
def emitSegments (t : Int) : List (Int × Nat × OutputSelect) → EditT Sequencer n Unit
  | [] => return
  | (addr, length, output) :: rest => do
    emitSegment map pulse addr length output
    emitSet map pulse t
    emitSegments (t + length) rest

/-- Starts the pulse at time `t`. -/
def emitAt (t : Int) : EditT Sequencer n Unit :=
  match pulse.style with
  | .constant | .arbitrary => emitSet map pulse t
  | .flatTop ramp =>
    let half := Pulse.rampHalf ramp
    if half = 0 then throw (.invalidPulse pulse.name (.ramp ramp.toNat))
    else
      emitSegments map pulse t
        [(pulse.addr, half, .product), (0, pulse.length.toNat, .dds),
         (pulse.addr + half, half, .product)]

/-- Starts the pulse and answers with its start time. The timestamp of its channel is changed when
all the code is there. -/
def emitPlay (start : Start) : EditT Sequencer n Int := do
  let t := (← get).startTime pulse.channel start
  emitAt map pulse t
  modify (·.setTimestamp pulse.channel (t + pulse.duration))
  return t

end

/-! ### Operations -/

/-- Raises readout triggers and marker pins. All arguments are checked before anything is
written. -/
def trigger (readouts markers : List UInt8) (t width : Int) : EditT Sequencer n Unit := do
  let pattern ← EditT.answer (readoutPattern 0 readouts)
  let pattern ← EditT.answer (markerPattern pattern markers)
  if width ≤ 0 then throw (triggerError (.triggerWidth width))
  let ⟨page, reg⟩ := triggerRegister
  discard <| onProgram <| append (.regwi page reg pattern)
    (some s!"out = {Text.bin 16 pattern}")
  discard <| onProgram <| append (.seti triggerChannel page reg t)
    (some s!"ch = {triggerChannel} out = ${reg} @t = {t}")
  discard <| onProgram <| append (.seti triggerChannel page 0 (t + width))
    (some s!"ch = {triggerChannel} out = 0 @t = {t + width}")

section
variable (map : ChannelMap)

/-- Writes the registers of a pulse. -/
def setup (pulse : Pulse) : EditT Sequencer n Unit := atomic (emitSetup map pulse)

/-- Schedules a pulse whose registers are set up, and answers with its start time. -/
def play (pulse : Pulse) (start : Start) : EditT Sequencer n Int :=
  atomic (emitPlay map pulse start)

/-- Sets up a pulse and schedules it. -/
def pulse (pulse : Pulse) (start : Start) : EditT Sequencer n Int :=
  atomic do
    emitSetup map pulse
    emitPlay map pulse start

/-- Plays a readout pulse with the triggers of the given readouts around it. -/
def measure (pulse : Pulse) (readouts : List UInt8) (offset : Int) (start : Start) :
    EditT Sequencer n Int := do
  let t := (← get).startTime pulse.channel start
  atomic do
    trigger readouts [] (t + offset) (pulse.duration + triggerTail)
    emitSetup map pulse
    emitPlay map pulse (.at t)

/-- Carries out an operation. Those that schedule a pulse answer with its start time. -/
def perform : Call → EditT Sequencer n (Option Int)
  | .setup pulse => do
    setup map pulse
    return none
  | .play pulse start => some <$> play map pulse start
  | .pulse p start => some <$> pulse map p start
  | .measure pulse readouts offset start => some <$> measure map pulse readouts offset start
  | .trigger readouts markers t width => do
    trigger readouts markers t width
    return none
  | .syncAll extra => do
    modify (·.syncAll extra)
    return none
  | .delay cycles => do
    modify (·.delay cycles)
    return none

end
end Sequencer.InPlace
end PulseProcessor
