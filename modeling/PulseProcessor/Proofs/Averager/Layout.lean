import PulseProcessor.Averager
import PulseProcessor.Proofs.Emulator.Code
import PulseProcessor.Proofs.Sweep.Repetition

/-! # The parts of an averaging program

An averaging program is written from front to back: what the caller writes at first, the shot
register's load, the heads of the loops, the body, the count, the ends of the loops.  The part in
front of the body is `AveragerConfig.front`, the part behind it `AveragerConfig.finish`, and
`AveragerConfig.build` puts them together around what the caller's two functions write
(`AveragerConfig.write_eq_ok`).

Beside the program stands what it is to do (`AveragerConfig.exec`): the code of the body, and a
count behind it, in two nested counted loops.
-/

namespace PulseProcessor
namespace AveragerConfig

/-! ### What is written -/

/-- The averaging program that two functions without effects lead to. -/
def write (c : AveragerConfig) (initially body : Sequencer → Except AssemblyError Sequencer) :
    Except AssemblyError AveragerProgram :=
  Id.run (c.build (fun s => ExceptT.mk (body s)) fun s => ExceptT.mk (initially s)).run

/-- Everything in front of the loops: the shot register is taken and cleared. -/
def start (c : AveragerConfig) (s : Sequencer) : Except AssemblyError SweepGenerator := do
  let g ← SweepGenerator.reserve { program := s.program } c.shotRegister "shot counter"
  return { g with
    program := g.program.append (.regwi c.shotRegister.page c.shotRegister.number 0)
      (some "shot counter") }

/-- The generator that has opened the outer sweep. -/
def outer (c : AveragerConfig) (g : SweepGenerator) : Except AssemblyError SweepGenerator :=
  match c.expts with
  | some s => g.enter s
  | none => .ok g

/-- Everything in front of the body. -/
def front (c : AveragerConfig) (s : Sequencer) : Except AssemblyError SweepGenerator := do
  (← c.outer (← c.start s)).enter c.repsSweep

/-- The program in which both loops have been closed behind a body. -/
def finish (c : AveragerConfig) (p : Program) : Program :=
  match c.expts with
  | some s => s.closed (c.repsSweep.closed (c.publish p))
  | none => c.repsSweep.closed (c.publish p)

section
variable {c : AveragerConfig} {initially body : Sequencer → Except AssemblyError Sequencer}

theorem publish_eq (c : AveragerConfig) (p : Program) : c.publish p =
    (p.append (.mathi c.shotRegister.page c.shotRegister.number c.shotRegister.number
      (.known .add) 1)).append
        (.memwi c.shotRegister.page c.shotRegister.number c.counterAddr.toNat) := rfl

theorem front_eq_ok_iff {s : Sequencer} {inner : SweepGenerator} : c.front s = .ok inner ↔
    ∃ g mid, c.start s = .ok g ∧ c.outer g = .ok mid ∧ mid.enter c.repsSweep = .ok inner := by
  simp only [front, bind_eq_ok_iff]
  constructor
  · rintro ⟨g, hg, mid, hmid, hinner⟩
    exact ⟨g, mid, hg, hmid, hinner⟩
  · rintro ⟨g, mid, hg, hmid, hinner⟩
    exact ⟨g, hg, mid, hmid, hinner⟩

/-- What is done one after the other succeeds if each part does. -/
theorem run_bind_eq_ok {α β : Type} {x : ExceptT AssemblyError Id α}
    {f : α → ExceptT AssemblyError Id β} {b : β} (h : Id.run (x >>= f).run = .ok b) :
    ∃ a, Id.run x.run = .ok a ∧ Id.run (f a).run = .ok b := by
  change Id.run (ExceptT.bindCont (m := Id) f x) = .ok b at h
  cases x with
  | error e => contradiction
  | ok a => exact ⟨a, rfl, h⟩

/-- The loop over repetitions, in its parts. -/
theorem emitReps_eq_ok {g g' : SweepGenerator}
    (h : Id.run (c.emitReps (fun s => ExceptT.mk (body s)) g).run = .ok g') :
    ∃ inner s', g.enter c.repsSweep = .ok inner ∧ body { program := inner.program } = .ok s' ∧
      g'.program = c.repsSweep.closed (c.publish s'.program) := by
  rw [emitReps, SweepGenerator.run_sweep] at h
  obtain ⟨inner, hinner, h⟩ := bind_eq_ok_iff.1 h
  obtain ⟨inner', hbody, rfl⟩ := map_eq_ok_iff.1 h
  obtain ⟨s', hs', hbody⟩ := run_bind_eq_ok hbody
  obtain rfl := Except.ok.inj hbody
  exact ⟨inner, s', hinner, hs', rfl⟩

/-- **A program that has been written, in its parts.** -/
theorem write_eq_ok {built : AveragerProgram} (h : c.write initially body = .ok built) :
    ∃ s inner s', initially {} = .ok s ∧ c.front s = .ok inner ∧
      body { program := inner.program } = .ok s' ∧
      built = { program := (c.finish s'.program).append .halt, totalCount := c.totalCount,
                counterAddr := c.counterAddr, exptPoints := c.exptPoints } := by
  obtain ⟨s, hs, h⟩ := run_bind_eq_ok h
  obtain ⟨g, hg, h⟩ := run_bind_eq_ok h
  have hstart : c.start s = .ok { g with
      program := g.program.append (.regwi c.shotRegister.page c.shotRegister.number 0)
        (some "shot counter") } := bind_eq_ok_iff.2 ⟨g, hg, rfl⟩
  -- The loop over repetitions is written alone, or inside of the outer sweep.
  cases hexpts : c.expts with
  | none =>
    rw [hexpts] at h
    obtain ⟨g', hg', h⟩ := run_bind_eq_ok h
    obtain rfl := Except.ok.inj h
    obtain ⟨inner, s', hinner, hs', hprogram⟩ := emitReps_eq_ok hg'
    refine ⟨s, inner, s', hs, front_eq_ok_iff.2 ⟨_, _, hstart, ?_, hinner⟩, hs', ?_⟩
    · rw [outer, hexpts]
    · rw [hprogram, finish, hexpts]
  | some e =>
    rw [hexpts] at h
    obtain ⟨g', hg', h⟩ := run_bind_eq_ok h
    obtain rfl := Except.ok.inj h
    rw [SweepGenerator.run_sweep] at hg'
    obtain ⟨mid, hmid, hg'⟩ := bind_eq_ok_iff.1 hg'
    obtain ⟨mid', hmid', rfl⟩ := map_eq_ok_iff.1 hg'
    obtain ⟨inner, s', hinner, hs', hprogram⟩ := emitReps_eq_ok hmid'
    refine ⟨s, inner, s', hs, front_eq_ok_iff.2 ⟨_, mid, hstart, ?_, hinner⟩, hs', ?_⟩
    · rw [outer, hexpts]
      exact hmid
    · rw [finish, hexpts, SweepGenerator.leave, hprogram]
      rfl

end

/-! ### What is to be done -/

/-- Iterations of the outer sweep; without one the body is repeated at a single point. -/
def exptCount (c : AveragerConfig) : Nat :=
  match c.expts with
  | some s => s.count.toNat
  | none => 1

/-- The registers that the outer sweep steps. -/
def swept (c : AveragerConfig) : List SweptRegister :=
  match c.expts with
  | some s => s.registers
  | none => []

/-- The registers that the outer sweep owns. -/
def exptOwned (c : AveragerConfig) : List Register :=
  match c.expts with
  | some s => s.owned
  | none => []

/-- The registers that the program needs for itself, the shot register first. -/
def needed (c : AveragerConfig) : List Register :=
  c.shotRegister :: c.repsRegister :: c.exptOwned

/-- Counts a shot: the shot register goes up, and data memory shows it. -/
def count (c : AveragerConfig) (m : Machine) : Machine :=
  let m := m.put c.shotRegister (m.get c.shotRegister + 1)
  if h : c.counterAddr.toNat < 1024 then
    { m with memory := m.memory.set c.counterAddr.toNat (m.get c.shotRegister) h }
  else m

/-- One shot: the code of the body, and a count. -/
def shoot (c : AveragerConfig) (code : List Instruction) (m : Machine) : Option Machine :=
  (m.performAll code).map c.count

/-- All repetitions at one point of the outer sweep. -/
def repeatShots (c : AveragerConfig) (code : List Instruction) : Machine → Option Machine :=
  c.repsSweep.repeats (c.shoot code)

/-- All shots, at one point of the outer sweep after the other. -/
def shootAll (c : AveragerConfig) (code : List Instruction) (m : Machine) : Option Machine :=
  match c.expts with
  | some s => s.repeats (c.repeatShots code) m
  | none => c.repeatShots code m

/-- **What an averaging program does**: `setup` once, and then the body's code for every shot.  It
can fail only if some of this code does. -/
def exec (c : AveragerConfig) (setup code : List Instruction) : Option Machine := do
  let m ← ({} : Machine).performAll setup
  c.shootAll code (m.put c.shotRegister 0)

theorem totalCount_eq (c : AveragerConfig) : c.totalCount = c.reps.toNat * c.exptCount := rfl

end AveragerConfig
end PulseProcessor
