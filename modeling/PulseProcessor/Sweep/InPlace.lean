import PulseProcessor.Assembly.InPlace
import PulseProcessor.Sweep.Generator

/-!
# Generating sweeps in place

A sweep in place works on the generator that its caller and its body share.  If it fails, there is
something to undo: registers that have been taken, the code in front of the label and the label
itself, and whatever the body has done before it failed.
-/

namespace PulseProcessor
namespace SweepGenerator.InPlace

open Program.InPlace (append loadConstant defineLabel)

variable {n : Type → Type} [Monad n]

/-- Edits the program. -/
def onProgram {α : Type} (e : EditT Program n α) : EditT SweepGenerator n α :=
  e.on (·.program) fun g program => { g with program }

/-- Works on a program through a new generator. -/
def session {α : Type} (e : EditT SweepGenerator n α) : EditT Program n α :=
  e.on (fun program => { program }) fun _ g => g.program

/-- Makes a register live. -/
def reserve (r : Register) (owner : String) : EditT SweepGenerator n Unit := do
  if r.number = 0 then throw (.registerCollision r "zero register")
  if let some (_, holder) := (← get).live.find? (·.1 == r) then
    throw (.registerCollision r holder)
  modify fun g => { g with live := g.live ++ [(r, owner)] }

/-- Frees all but the first live registers. -/
def truncate (mark : Nat) : EditT SweepGenerator n Unit :=
  modify fun g => { g with live := g.live.take mark }

/-- Makes registers live in their order. If one cannot be had, all but the first live registers
are freed. -/
def reserveAll (owner : String) (mark : Nat) : List Register → EditT SweepGenerator n Unit
  | [] => return
  | r :: rs => do
    match ← (reserve r owner).attempt with
    | .ok () => reserveAll owner mark rs
    | .error e =>
      truncate mark
      throw e

/-- Loads the start of a swept register. -/
def preload (name : String) (r : SweptRegister) : EditT Program n Unit :=
  discard <| loadConstant r.register.page r.register.number
    (Isa.wrap r.width r.start).toInt64.toInt (some s!"{name}: {r.register.text} = {r.start}")

/-- Steps a swept register and cuts it to its width. -/
def advance (r : SweptRegister) : EditT Program n Unit := do
  let ⟨page, reg⟩ := r.register
  discard <| append (.mathi page reg reg (.known .add) r.step)
  if r.width ≥ registerWidth then pure ()
  else if r.width = 31 then
    discard <| append (.bitwi page reg reg (.known .shl) 1)
    discard <| append (.bitwi page reg reg (.known .shr) 1)
  else discard <| append (.bitwi page reg reg (.known .and) ((1 <<< r.width : Nat) - 1))

/-- Loads the registers of a loop. -/
def load (s : Sweep) : EditT Program n Unit := do
  s.registers.forM (preload s.name)
  discard <| loadConstant s.counter.page s.counter.number (s.count.toNat - 1)
    (some s!"{s.name}: {s.count} iterations")

/-- Steps the registers of a loop and jumps back. -/
def close (s : Sweep) : EditT Program n Unit := do
  s.registers.forM advance
  discard <| append (.loopnz s.counter.page s.counter.number s.name)

/-- Frees the registers of a loop, and closes it or, if its body has failed, undoes it. -/
def leave (s : Sweep) (mark : Nat) (checkpoint : Program.Checkpoint)
    (result : Except AssemblyError Unit) : EditT SweepGenerator n Unit := do
  truncate mark
  match result with
  | .ok () => onProgram (close s)
  | .error e =>
    modify fun g => { g with program := g.program.rollback checkpoint }
    throw e

/-- A loop around the code that `body` writes. -/
def sweep (s : Sweep) (body : EditT SweepGenerator n Unit) : EditT SweepGenerator n Unit := do
  if s.count = 0 then throw (.invalidSweepCount s.name s.count)
  let g ← get
  let mark := g.live.length
  let checkpoint := g.program.checkpoint
  reserveAll s.name mark s.owned
  onProgram (load s)
  let result ← EditT.attempt do
    onProgram (defineLabel s.name)
    body
  leave s mark checkpoint result

end SweepGenerator.InPlace
end PulseProcessor
