import PulseProcessor.Isa.DataMemory
import PulseProcessor.Pulse.Sequencer
import PulseProcessor.Sweep.Generator

/-!
# Averaging programs

The standard acquisition program repeats a body, inside an optional outer sweep. After every
repetition it counts the shot and publishes the count in data memory, where the host reads how many
samples there are.
-/

namespace PulseProcessor

/-- Shape of an averaging program. -/
structure AveragerConfig where
  /-- Repetitions of the body for each sweep point. -/
  reps : UInt32
  /-- The data memory word for the shot count. -/
  counterAddr : UInt32 := 1
  shotRegister : Register := ⟨0, 13⟩
  repsRegister : Register := ⟨0, 15⟩
  /-- The outer sweep. -/
  expts : Option Sweep := none
  deriving DecidableEq, Repr

/-- An averaging program, and what the host needs to read it out. -/
structure AveragerProgram where
  program : Program
  /-- Shots that the program counts before it ends. -/
  totalCount : Nat
  counterAddr : UInt32
  /-- Values of the outer sweep's registers. -/
  exptPoints : List (List UInt32)

namespace AveragerConfig

/-- Values of the outer sweep, one list for each swept register. -/
def exptPoints (c : AveragerConfig) : List (List UInt32) :=
  match c.expts with
  | some s => s.points
  | none => []

/-- Shots that the program counts before it ends. -/
def totalCount (c : AveragerConfig) : Nat :=
  c.reps.toNat * match c.expts with
    | some s => s.count.toNat
    | none => 1

/-- Name of the loop over repetitions. -/
def repsLoop : String := "LOOP_J"

/-- The loop over repetitions. -/
def repsSweep (c : AveragerConfig) : Sweep :=
  { name := repsLoop, count := c.reps, counter := c.repsRegister }

/-- Counts a shot and publishes the count. -/
def publish (c : AveragerConfig) (p : Program) : Program :=
  let ⟨page, reg⟩ := c.shotRegister
  (p.append (.mathi page reg reg (.known .add) 1)).append (.memwi page reg c.counterAddr.toNat)

section
variable {n : Type → Type} [Monad n] (c : AveragerConfig)
  (body : Sequencer → ExceptT AssemblyError n Sequencer)

/-- The loop over repetitions, with a count behind the body. -/
def emitReps (g : SweepGenerator) : ExceptT AssemblyError n SweepGenerator :=
  g.sweep c.repsSweep fun g => do
    let s ← body { program := g.program }
    return { g with program := c.publish s.program }

/-- The program that runs `initially` once and `body` for every shot. -/
def build (initially : Sequencer → ExceptT AssemblyError n Sequencer) :
    ExceptT AssemblyError n AveragerProgram := do
  let s ← initially {}
  let g : SweepGenerator := { program := s.program }
  let shot := c.shotRegister
  let g ← ExceptT.mk (pure (g.reserve shot "shot counter"))
  let g := { g with
    program := g.program.append (.regwi shot.page shot.number 0) (some "shot counter") }
  let g ← match c.expts with
    | some s => g.sweep s fun g => emitReps c body g
    | none => emitReps c body g
  return {
    program := g.program.append .halt
    totalCount := c.totalCount
    counterAddr := c.counterAddr
    exptPoints := c.exptPoints }

end

/-! ### As JSON -/

def ofJson? (j : Json) : Option AveragerConfig := do
  let [reps, counterAddr, shot, repsRegister, expts] ←
    j.record? ["reps", "counter_addr", "shot_reg", "reps_reg", "expts"] | none
  return {
    reps := ← Json.required reps Json.word32?
    counterAddr := ← Json.optional counterAddr 1 Json.word32?
    shotRegister := ← Json.optional shot ⟨0, 13⟩ Register.ofJson?
    repsRegister := ← Json.optional repsRegister ⟨0, 15⟩ Register.ofJson?
    expts := ← Json.optional expts none fun
      | .null => some none
      | j => (Sweep.ofJson? j).map some }

def toJson (c : AveragerConfig) : Json :=
  .object [("reps", .integer c.reps.toNat), ("counter_addr", .integer c.counterAddr.toNat),
    ("shot_reg", c.shotRegister.toJson), ("reps_reg", c.repsRegister.toJson),
    ("expts", match c.expts with
      | some s => s.toJson
      | none => .null)]

end AveragerConfig
end PulseProcessor
