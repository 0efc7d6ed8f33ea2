import PulseProcessor.Assembly.Program
import PulseProcessor.Emulator.Run

/-! # The meaning of programs as they are written

`PulseProcessor.Emulator` runs words.  This module runs the statements themselves: operators are
the functions that their names say, immediates are integers taken modulo `2 ^ 32`, and a jump leads
to the place that its label marks.  Nothing here knows of fields, codes or bit patterns, so that
the encoding can be measured against it.

The state is the plainest one there is: eight pages of 32 registers of which the first of each page
reads zero, 1024 words of memory, the place in the program, the time offset and the updates so far,
in their order.

An operator has a meaning in the class of its mnemonic only (`Operator.arithmetic?`,
`Operator.bitwise?`, `Operator.comparison?`).  Where a statement uses another one, or a symbol that
names none, it is unsupported; and a label that marks no place leads past the end.
-/

namespace PulseProcessor

open Isa (Mnemonic Operator)

/-! ### Operators by name -/

namespace Isa.Operator

/-- Sums, differences and products. -/
def arithmetic? : Operator → Option (UInt32 → UInt32 → UInt32)
  | add => some fun a b => a + b
  | sub => some fun a b => a - b
  | mul => some fun a b => a * b
  | _ => none

/-- Operators on the bits of registers.  Complement takes the right operand; a shift by the width
or more leaves nothing. -/
def bitwise? : Operator → Option (UInt32 → UInt32 → UInt32)
  | and => some fun a b => a &&& b
  | or => some fun a b => a ||| b
  | xor => some fun a b => a ^^^ b
  | not => some fun _ b => ~~~b
  | shl => some fun a b => if b < 32 then a <<< b else 0
  | shr => some fun a b => if b < 32 then a >>> b else 0
  | _ => none

/-- Comparisons of registers as signed numbers. -/
def comparison? : Operator → Option (UInt32 → UInt32 → Bool)
  | gt => some fun a b => signed a > signed b
  | ge => some fun a b => signed a ≥ signed b
  | lt => some fun a b => signed a < signed b
  | le => some fun a b => signed a ≤ signed b
  | eq => some fun a b => signed a = signed b
  | ne => some fun a b => signed a ≠ signed b
  | _ => none

end Isa.Operator

/-- What an operator means in a class of operators, if it is one of them. -/
def OperatorRef.meaning? {α : Type} (o : OperatorRef) (class? : Operator → Option α) : Option α :=
  match o.resolve with
  | .ok op => class? op
  | .error _ => none

/-- The place that a jump to `name` leads to. -/
def Program.place (p : Program) (name : String) : Nat := (p.labelPc? name).getD p.size

/-! ### States -/

namespace Interpreter

/-- What the statements of a program act on. -/
structure State where
  registers : Fin 8 → Fin 32 → UInt32 := fun _ _ => 0
  memory : Fin 1024 → UInt32 := fun _ => 0
  /-- Index of the next statement. -/
  pc : Nat := 0
  time : Int := 0
  /-- The earliest first. -/
  events : List Event := []
  halted : Bool := false

namespace State

/-- A register's value; the first one of a page has none but zero. -/
def register (s : State) (page : Fin 8) (reg : Fin 32) : UInt32 :=
  if reg = 0 then 0 else s.registers page reg

def read (s : State) (page reg : UInt8) : UInt32 :=
  s.register (Fin.ofNat 8 page.toNat) (Fin.ofNat 32 reg.toNat)

def write (s : State) (page reg : UInt8) (v : UInt32) : State :=
  { s with registers := fun p r =>
      if p = Fin.ofNat 8 page.toNat ∧ r = Fin.ofNat 32 reg.toNat then v else s.registers p r }

def load (s : State) (addr : Nat) : Except EmulatorError UInt32 :=
  if h : addr < 1024 then .ok (s.memory ⟨addr, h⟩) else .error (.memoryOutOfRange s.pc addr)

def store (s : State) (addr : Nat) (v : UInt32) : Except EmulatorError State :=
  if addr < 1024 then
    .ok { s with memory := fun a => if a.val = addr then v else s.memory a }
  else .error (.memoryOutOfRange s.pc addr)

def goto (s : State) (pc : Nat) : State := { s with pc }

def next (s : State) : State := s.goto (s.pc + 1)

def wait (s : State) (dt : Int) : State := { s with time := s.time + dt }

def emit (s : State) (e : Event) : State := { s with events := s.events ++ [e] }

/-- Takes up the meaning of a part of statement `i`, if it has one. -/
def require {α : Type} (s : State) (i : Instruction) : Option α → Except EmulatorError α
  | some a => .ok a
  | none => .error (.unsupported s.pc i.mnemonic)

/-- What one statement does. -/
def execute (p : Program) (s : State) (i : Instruction) : Except EmulatorError State :=
  match i with
  | .regwi page reg imm => return (s.write page reg (.ofInt imm)).next
  | .mathi page dst src op imm => do
    let f ← s.require i (op.meaning? Operator.arithmetic?)
    return (s.write page dst (f (s.read page src) (.ofInt imm))).next
  | .math page dst lhs op rhs => do
    let f ← s.require i (op.meaning? Operator.arithmetic?)
    return (s.write page dst (f (s.read page lhs) (s.read page rhs))).next
  | .bitwi page dst src op imm => do
    let f ← s.require i (op.meaning? Operator.bitwise?)
    return (s.write page dst (f (s.read page src) (.ofInt imm))).next
  | .bitw page dst lhs op rhs => do
    let f ← s.require i (op.meaning? Operator.bitwise?)
    return (s.write page dst (f (s.read page lhs) (s.read page rhs))).next
  | .memwi page reg addr => return (← s.store addr.toNat (s.read page reg)).next
  | .memri page reg addr => return (s.write page reg (← s.load addr.toNat)).next
  | .memw page src addr => return (← s.store (s.read page addr).toNat (s.read page src)).next
  | .memr page dst addr => return (s.write page dst (← s.load (s.read page addr).toNat)).next
  | .loopnz page reg target =>
    let count := s.read page reg
    return if count = 0 then s.next else (s.write page reg (count - 1)).goto (p.place target)
  | .condj page lhs op rhs target => do
    let f ← s.require i (op.meaning? Operator.comparison?)
    return if f (s.read page lhs) (s.read page rhs) then s.goto (p.place target) else s.next
  | .halt => return { s.next with halted := true }
  | .set channel page freq phase addr gain mode t =>
    return (s.emit (.set channel ((s.read page t).toNat + s.time) (s.read page freq)
      (s.read page phase) (s.read page addr) (s.read page gain) (s.read page mode))).next
  | .seti channel page reg t => return (s.emit (.seti channel (t + s.time) (s.read page reg))).next
  | .synci t => return (s.wait t).next
  | .sync page reg => return (s.wait (s.read page reg).toNat).next
  | .waiti .. | .wait .. => return s.next
  | .setbi .. | .setb .. | .pushi .. | .popi .. | .read .. =>
    .error (.unsupported s.pc i.mnemonic)

end State
end Interpreter

/-! ### Runs -/

/-- A program in interpretation. -/
structure Interpreter where
  program : Program
  state : Interpreter.State := {}
  /-- Statements executed so far. -/
  steps : Nat := 0
  limit : Nat := defaultStepLimit

namespace Interpreter

/-- Executes one statement.  The answer says whether the program goes on. -/
def step (x : Interpreter) : Except EmulatorError Bool × Interpreter :=
  if x.state.halted then (.ok false, x)
  else if x.limit ≤ x.steps then (.error (.stepLimit x.limit), x)
  else
    match x.program.statements[x.state.pc]? with
    | none => (.error (.pcOutOfRange x.state.pc), x)
    | some s =>
      match x.state.execute x.program s.instruction with
      | .error e => (.error e, { x with steps := x.steps + 1 })
      | .ok state => (.ok (! state.halted), { x with state, steps := x.steps + 1 })

end Interpreter

/-- The answers of `n` steps, and what they lead to. -/
def stepsOf {σ α : Type} (step : σ → α × σ) : Nat → σ → List α × σ
  | 0, s => ([], s)
  | n + 1, s => ((step s).1 :: (stepsOf step n (step s).2).1, (stepsOf step n (step s).2).2)

end PulseProcessor
