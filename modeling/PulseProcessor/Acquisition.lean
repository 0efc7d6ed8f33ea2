import PulseProcessor.Averager

/-!
# Acquisitions

The standard experiment: a readout pulse is played and digitised many times, at one gain after the
other. The gain's register is swept, so the pulse is set up once in front of all loops and only
played inside them.
-/

namespace PulseProcessor

/-- Shape of a readout experiment with a swept gain. -/
structure Acquisition where
  /-- Repetitions at each gain. -/
  reps : UInt32 := 100
  /-- Gains; a single one needs no sweep. -/
  points : UInt32 := 1
  /-- The channel of the readout pulse. -/
  channel : UInt8 := 7
  freq : Int := 100000
  gainStart : Int := 1000
  gainStep : Int := 500
  length : UInt32 := 400
  /-- Cycles from the start of the pulse to the rise of the triggers. -/
  triggerOffset : Int := 200
  /-- Cycles to wait after a shot. -/
  relax : Int := 1000
  /-- The readouts that are triggered. -/
  triggers : List UInt8 := [0]
  deriving DecidableEq, Repr

namespace Acquisition

/-- The readout pulse, at the first gain. -/
def pulse (a : Acquisition) : Pulse :=
  { channel := a.channel, name := "readout", style := .constant, freq := a.freq, phase := 0,
    gain := a.gainStart, length := a.length }

/-- Name of the loop over gains. -/
def gainLoop : String := "LOOP_I"

/-- Number of the register that counts gains, on the channel's page. -/
def gainCounter : UInt8 := 14

/-- The sweep over gains; none if there is only one. -/
def sweep? (a : Acquisition) (map : ChannelMap) : Except AssemblyError (Option Sweep) := do
  if a.points ≤ 1 then return none
  let gain ← map.register a.channel .gain
  let swept : SweptRegister := { register := gain, start := a.gainStart, step := a.gainStep }
  return some {
    name := gainLoop
    count := a.points
    counter := ⟨← map.page a.channel, gainCounter⟩
    registers := [swept.withWidth (map.width .gain)] }

/-- One shot: the triggers, the pulse, and the wait behind it. -/
def shot (a : Acquisition) (map : ChannelMap) (s : Sequencer) :
    Except AssemblyError Sequencer := do
  let t := s.timestamp a.channel
  let s ← s.trigger a.triggers [] (t + a.triggerOffset) (a.pulse.duration + triggerTail)
  let (s, _) ← s.play map a.pulse (.at t)
  return s.syncAll a.relax

/-- The program of the experiment. -/
def build (a : Acquisition) (map : ChannelMap) : Except AssemblyError AveragerProgram := do
  let config : AveragerConfig := { reps := a.reps, expts := ← a.sweep? map }
  let body (s : Sequencer) : ExceptT AssemblyError Id Sequencer := ExceptT.mk (a.shot map s)
  let initially (s : Sequencer) : ExceptT AssemblyError Id Sequencer :=
    ExceptT.mk (s.setup map a.pulse)
  (config.build body initially).run.run

end Acquisition

namespace AveragerProgram

/-- Values of the first swept register; none if nothing is swept. -/
def firstPoints (p : AveragerProgram) : List UInt32 := p.exptPoints.head?.getD []

end AveragerProgram
end PulseProcessor
