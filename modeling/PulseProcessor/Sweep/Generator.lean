import PulseProcessor.Assembly.Program
import PulseProcessor.Sweep.Descriptor

/-!
# Generating sweeps

Each sweep becomes a counted loop: its registers and its counter are loaded, the label is set, the
body follows, then every swept register is stepped and a counted jump leads back. While a loop is
open its registers are live, and a loop inside it that asks for one of them is refused.

A sweep that fails, or whose body fails, answers with an error and no generator, so program,
labels and live registers are those the caller had.
-/

namespace PulseProcessor

/-- A program with the registers that open loops and reservations own. -/
structure SweepGenerator where
  program : Program := {}
  /-- Live registers, each with the name of its owner, the latest last. -/
  live : List (Register × String) := []
  deriving DecidableEq, Repr

namespace SweepGenerator

def liveRegisters (g : SweepGenerator) : List Register := g.live.map (·.1)

/-- Makes a register live. Register 0 cannot be written and is taken by its page. -/
def reserve (g : SweepGenerator) (r : Register) (owner : String) :
    Except AssemblyError SweepGenerator :=
  if r.number = 0 then .error (.registerCollision r "zero register")
  else
    match g.live.find? (·.1 == r) with
    | some (_, holder) => .error (.registerCollision r holder)
    | none => .ok { g with live := g.live ++ [(r, owner)] }

/-- Makes registers live in their order. -/
def reserveAll (g : SweepGenerator) (owner : String) :
    List Register → Except AssemblyError SweepGenerator
  | [] => .ok g
  | r :: rs => do (← g.reserve r owner).reserveAll owner rs

/-- Loads the start of a swept register. -/
def preload (name : String) (p : Program) (r : SweptRegister) : Program :=
  p.loadConstant r.register.page r.register.number (Isa.wrap r.width r.start).toInt64.toInt
    (some s!"{name}: {r.register.text} = {r.start}")

/-- Opens a loop: takes its registers, loads them and sets its label. A counted jump runs its body
once more than its counter says. -/
def enter (g : SweepGenerator) (s : Sweep) : Except AssemblyError SweepGenerator := do
  if s.count = 0 then throw (.invalidSweepCount s.name s.count)
  let g ← g.reserveAll s.name s.owned
  let p := s.registers.foldl (preload s.name) g.program
  let p := p.loadConstant s.counter.page s.counter.number (s.count.toNat - 1)
    (some s!"{s.name}: {s.count} iterations")
  return { g with program := ← p.defineLabel s.name }

/-- Steps a swept register and cuts it to its width. A mask of 31 bits does not fit an immediate;
two shifts do its work. -/
def advance (p : Program) (r : SweptRegister) : Program :=
  let ⟨page, reg⟩ := r.register
  let p := p.append (.mathi page reg reg (.known .add) r.step)
  if r.width ≥ registerWidth then p
  else if r.width = 31 then
    (p.append (.bitwi page reg reg (.known .shl) 1)).append (.bitwi page reg reg (.known .shr) 1)
  else p.append (.bitwi page reg reg (.known .and) ((1 <<< r.width : Nat) - 1))

/-- Closes a loop that was opened from `outer`: steps its registers and jumps back. What was live
inside is so no longer. -/
def leave (g outer : SweepGenerator) (s : Sweep) : SweepGenerator :=
  let p := s.registers.foldl advance g.program
  { program := p.append (.loopnz s.counter.page s.counter.number s.name), live := outer.live }

/-- A loop around the code that `body` writes. The body may do so in any monad that carries
assembly errors, for instance one that keeps a log. -/
def sweep {n : Type → Type} [Monad n] (g : SweepGenerator) (s : Sweep)
    (body : SweepGenerator → ExceptT AssemblyError n SweepGenerator) :
    ExceptT AssemblyError n SweepGenerator := do
  let inner ← ExceptT.mk (pure (g.enter s))
  let inner ← body inner
  return inner.leave g s

end SweepGenerator
end PulseProcessor
