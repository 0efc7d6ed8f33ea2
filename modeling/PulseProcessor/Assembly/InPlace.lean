import PulseProcessor.Assembly.Program

/-!
# Working on programs in place

The operations on programs answer with a new program.  Here they work in place, on a program that
their caller goes on holding: an operation that fails has changed it up to there, and whoever wants
none of that takes a checkpoint first and rolls back to it.
-/

namespace PulseProcessor

/-! ### Edits -/

/-- An operation on a state that changes it in place, within a monad of further effects. -/
abbrev EditT (σ : Type) (n : Type → Type) : Type → Type := ExceptT AssemblyError (StateT σ n)

/-- An operation on a state that changes it in place. -/
abbrev Edit (σ : Type) : Type → Type := EditT σ Id

namespace EditT

variable {σ τ α : Type} {n : Type → Type} [Monad n]

/-- The answer of an edit and the state that it leaves, be the answer a result or an error. -/
def outcome (e : EditT σ n α) (s : σ) : n (Except AssemblyError α × σ) := e.run.run s

/-- Carries out an edit and goes on whatever comes of it. -/
def attempt (e : EditT σ n α) : EditT σ n (Except AssemblyError α) := ExceptT.lift e.run

/-- Answers with a result or fails, without a look at the state. -/
def answer (r : Except AssemblyError α) : EditT σ n α := ExceptT.mk (pure r)

/-- Edits a part of the state. -/
def on (get : σ → τ) (set : σ → τ → σ) (e : EditT τ n α) : EditT σ n α :=
  ExceptT.mk fun s => do
    let (r, t) ← e.outcome (get s)
    return (r, set s t)

end EditT

namespace Edit

variable {σ α : Type}

/-- The answer of an edit and the state that it leaves. -/
def outcome (e : Edit σ α) (s : σ) : Except AssemblyError α × σ := (EditT.outcome e s).run

/-- The outcome of what answers with a new state, or fails and leaves the old one. -/
def settled (old : σ) : Except AssemblyError (α × σ) → Except AssemblyError α × σ
  | .ok (a, new) => (.ok a, new)
  | .error e => (.error e, old)

end Edit

namespace Program

/-! ### Checkpoints -/

/-- How far a program has got. -/
structure Checkpoint where
  statements : Nat
  labels : Nat
  deriving DecidableEq, Repr

def checkpoint (p : Program) : Checkpoint := ⟨p.statements.size, p.labels.size⟩

/-- Drops the instructions and labels behind a checkpoint. -/
def rollback (p : Program) (mark : Checkpoint) : Program where
  statements := p.statements.take mark.statements
  labels := p.labels.take mark.labels

/-- Gives the instruction at a place another comment. -/
def annotate (p : Program) (pc : Nat) (comment : String) : Program :=
  { p with statements := p.statements.modify pc ({ · with comment := some (oneLine comment) }) }

end Program

/-! ### Operations in place -/

namespace Program.InPlace

variable {n : Type → Type} [Monad n]

/-- Appends an instruction, and answers with its place. -/
def append (i : Instruction) (comment : Option String := none) : EditT Program n Nat := do
  let p ← get
  set (p.append i comment)
  return p.size

/-- Binds a name to the place of the next instruction. -/
def defineLabel (name : String) : EditT Program n Unit := do
  if ¬ isLabelName name then throw (.invalidLabel name)
  if ((← get).labelPc? name).isSome then throw (.duplicateLabel name)
  modify fun p => { p with labels := p.labels.push (name, p.size) }

/-- Appends the instructions that load a constant, and answers with the place of the first. -/
def appendConstant (page reg : UInt8) (v : Int) : EditT Program n Nat :=
  if v.natAbs < 1 <<< 30 then append (.regwi page reg v)
  else do
    let first ← append (.regwi page reg (v / 4))
    discard <| append (.bitwi page reg reg (.known .shl) 2)
    let low := v % 4
    if low ≠ 0 then discard <| append (.mathi page reg reg (.known .add) low)
    return first

/-- Loads a constant into a register, and answers with the place of the first instruction for it.
This one gets the comment, when all of them are there. -/
def loadConstant (page reg : UInt8) (v : Int) (comment : Option String := none) :
    EditT Program n Nat := do
  let first ← appendConstant page reg v
  if let some comment := comment then modify (·.annotate first comment)
  return first

end Program.InPlace
end PulseProcessor
