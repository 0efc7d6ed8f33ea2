import PulseProcessor.Proofs.Assembly.Encoding
import PulseProcessor.Proofs.Emulator.Instructions
import PulseProcessor.Proofs.Emulator.Machine
import PulseProcessor.Proofs.Interpreter

/-! # The encoded program means what the written one means

An interpreter state and a machine **match** when every register reads the same on both sides, and
memory, place, time, updates and the halted mark are equal (`Interpreter.State.Matches`).  A
statement and its word take matching states to matching states, or fail with one error
(`execute_simulates`); so do a step of `Interpreter` and one of `Emulator`, and so do any number of
steps.

What is asked of the statements (`Instruction.Plain`) is what the word cannot carry otherwise.  An
immediate has 31 bits with sign, so one that goes into a register or moves the time has to keep
below `2 ^ 30`; an address that is negative would be taken for a pattern; and operators of
different classes share their codes.
-/

namespace PulseProcessor

open Isa (Mnemonic Operator FieldKind Decoded Narrow immediateValue)

/-- **A statement whose word carries all it says.** -/
def Instruction.Plain : Instruction → Prop
  | regwi _ _ imm => Narrow imm
  | mathi _ _ _ op imm => (op.meaning? Operator.arithmetic?).isSome ∧ Narrow imm
  | math _ _ _ op _ => (op.meaning? Operator.arithmetic?).isSome
  | bitwi _ _ _ op imm => (op.meaning? Operator.bitwise?).isSome ∧ Narrow imm
  | bitw _ _ _ op _ => (op.meaning? Operator.bitwise?).isSome
  | condj _ _ op _ _ => (op.meaning? Operator.comparison?).isSome
  | memri _ _ addr => 0 ≤ addr
  | memwi _ _ addr => 0 ≤ addr
  | seti _ _ _ t => Narrow t
  | synci t => Narrow t
  | _ => True

instance (i : Instruction) : Decidable i.Plain := by
  unfold Instruction.Plain; split <;> infer_instance

/-! ### Codes of operators -/

namespace Isa.Operator

variable {op : Operator} {a b : UInt32}

theorem arithmetic?_code {f : UInt32 → UInt32 → UInt32} (h : op.arithmetic? = some f) :
    PulseProcessor.arithmetic? op.code a b = some (f a b) := by
  cases op <;> simp [arithmetic?] at h <;> subst h <;> rfl

theorem bitwise?_code {f : UInt32 → UInt32 → UInt32} (h : op.bitwise? = some f) :
    PulseProcessor.bitwise? op.code a b = some (f a b) := by
  cases op <;> simp [bitwise?] at h <;> subst h <;> rfl

theorem comparison?_code {f : UInt32 → UInt32 → Bool} (h : op.comparison? = some f) :
    compare? op.code (signed a) (signed b) = some (f a b) := by
  cases op <;> simp [comparison?] at h <;> subst h <;> simp [compare?, code]

end Isa.Operator

/-- An operator with a meaning in some class is one of the class. -/
theorem OperatorRef.meaning?_of_resolve {α : Type} {o : OperatorRef} {op : Operator}
    {class? : Operator → Option α} (ho : o.resolve = .ok op) (h : (o.meaning? class?).isSome) :
    ∃ f, o.meaning? class? = some f ∧ class? op = some f := by
  rw [meaning?, ho] at *
  exact ⟨_, (Option.some_get h).symm, (Option.some_get h).symm⟩

namespace Interpreter

/-! ### Matching states -/

/-- **One state, seen from both sides.** -/
structure State.Matches (s : State) (m : Machine) : Prop where
  registers : ∀ page reg, m.read page.val reg.val = s.register page reg
  memory : ∀ addr : Fin 1024, m.memory[addr] = s.memory addr
  pc : m.pc = s.pc
  time : m.timeOffset = s.time
  events : m.events.toList = s.events
  halted : m.halted = s.halted

/-- Matching states, or the same error. -/
def Agree : Except EmulatorError State → Except EmulatorError Machine → Prop
  | .ok s, .ok m => s.Matches m
  | .error e, .error e' => e = e'
  | _, _ => False

namespace State.Matches

variable {s : State} {m : Machine} {page reg : UInt8}

theorem init : ({} : State).Matches {} where
  registers page reg := by simp [State.register, Machine.read]
  memory addr := by simp
  pc := rfl
  time := rfl
  events := rfl
  halted := rfl

theorem read (h : s.Matches m) (hp : page.toNat < 8) (hr : reg.toNat < 32) :
    m.read page.toNat reg.toNat = s.read page reg := by
  have hread := h.registers (Fin.ofNat 8 page.toNat) (Fin.ofNat 32 reg.toNat)
  rwa [Fin.val_ofNat, Fin.val_ofNat, Nat.mod_eq_of_lt hp, Nat.mod_eq_of_lt hr] at hread

theorem write (h : s.Matches m) (hp : page.toNat < 8) (hr : reg.toNat < 32) (v : UInt32) :
    (s.write page reg v).Matches (m.write page.toNat reg.toNat v) where
  registers page' reg' := by
    rw [Machine.read_write hp hr page'.isLt reg'.isLt, h.registers]
    simp only [State.register, State.write, Fin.ext_iff, Fin.val_ofNat, Nat.mod_eq_of_lt hp,
      Nat.mod_eq_of_lt hr, Fin.val_zero]
    -- What is written to the first register of a page is kept by neither side's reading.
    by_cases h0 : reg'.val = 0
    · simp only [h0, if_true]
      rw [if_neg (by omega)]
    · simp only [h0, if_false]
      by_cases hhit : page.toNat = page'.val ∧ reg.toNat = reg'.val
      · rw [if_pos ⟨by omega, hhit⟩, if_pos ⟨hhit.1.symm, hhit.2.symm⟩]
      · rw [if_neg fun hc => hhit hc.2, if_neg fun hc => hhit ⟨hc.1.symm, hc.2.symm⟩]
  memory addr := by rw [Machine.write_memory]; exact h.memory addr
  pc := Machine.write_pc.trans h.pc
  time := Machine.write_timeOffset.trans h.time
  events := by rw [Machine.write_events]; exact h.events
  halted := Machine.write_halted.trans h.halted

theorem goto (h : s.Matches m) (pc : Nat) : (s.goto pc).Matches { m with pc } :=
  ⟨h.registers, h.memory, rfl, h.time, h.events, h.halted⟩

theorem next (h : s.Matches m) : s.next.Matches { m with pc := m.pc + 1 } := by
  rw [h.pc]; exact h.goto _

theorem wait (h : s.Matches m) (dt : Int) :
    (s.wait dt).Matches { m with timeOffset := m.timeOffset + dt } :=
  ⟨h.registers, h.memory, h.pc, congrArg (· + dt) h.time, h.events, h.halted⟩

theorem emit (h : s.Matches m) (e : Event) :
    (s.emit e).Matches { m with events := m.events.push e } :=
  ⟨h.registers, h.memory, h.pc, h.time, by simp [State.emit, h.events], h.halted⟩

theorem load (h : s.Matches m) {addr : Nat} (hlt : addr < 1024) :
    m.load? addr = some (s.memory ⟨addr, hlt⟩) := by
  rw [Machine.load?, Vector.getElem?_eq_getElem hlt, ← h.memory]
  rfl

theorem store (h : s.Matches m) {addr : Nat} (hlt : addr < 1024) (v : UInt32) :
    State.Matches { s with memory := fun a => if a.val = addr then v else s.memory a }
      { m with memory := m.memory.set addr v hlt } where
  registers := h.registers
  memory a := by
    have ha := h.memory a
    simp only [Fin.getElem_fin, Vector.getElem_set] at ha ⊢
    by_cases hhit : addr = a.val
    · rw [if_pos hhit, if_pos hhit.symm]
    · rw [if_neg hhit, if_neg (Ne.symm hhit), ha]
  pc := h.pc
  time := h.time
  events := h.events
  halted := h.halted

end State.Matches

/-! ### One statement -/

section
variable {p : Program} {pc : Nat} {w : Word} {s : State} {m : Machine}

theorem agree_store (hm : s.Matches m) (addr : Nat) (v : UInt32) :
    Agree ((s.store addr v).map State.next) ((m.storeEffect addr v).map m.apply) := by
  unfold State.store Machine.storeEffect
  by_cases hlt : addr < 1024
  · rw [if_pos hlt, dif_pos hlt]
    exact (hm.store hlt v).next
  · rw [if_neg hlt, dif_neg hlt]
    exact congrArg (EmulatorError.memoryOutOfRange · addr) hm.pc.symm

theorem agree_load (hm : s.Matches m) {page reg : UInt8} (hp : page.toNat < 8)
    (hr : reg.toNat < 32) (addr : Nat) :
    Agree ((s.load addr).map fun v => (s.write page reg v).next)
      ((m.loadEffect page.toNat reg.toNat addr).map m.apply) := by
  unfold State.load Machine.loadEffect
  by_cases hlt : addr < 1024
  · rw [dif_pos hlt, hm.load hlt]
    exact hm.next.write hp hr _
  · rw [dif_neg hlt, Machine.load?, Vector.getElem?_eq_none (by omega)]
    exact congrArg (EmulatorError.memoryOutOfRange · addr) hm.pc.symm

/-- **A statement and its word do the same.** -/
theorem execute_simulates {i : Instruction} (h : p.encodeInstruction pc i = .ok w)
    (hi : i.Plain) (hm : s.Matches m) :
    Agree (s.execute p i) ((m.effect ⟨i.mnemonic, w⟩).map m.apply) := by
  cases i with
  | regwi page reg imm =>
    obtain ⟨hp, hr, heff⟩ := Machine.effect_regwi h
    rw [Instruction.mnemonic, heff, Narrow.bmod hi]
    exact hm.next.write hp hr _
  | mathi page dst src op imm =>
    obtain ⟨hp, hd, hs, o, ho, heff⟩ := Machine.effect_mathi h
    obtain ⟨f, hf, hof⟩ := OperatorRef.meaning?_of_resolve ho hi.1
    rw [Instruction.mnemonic, heff, hi.2.bmod, hm.read hp hs, Operator.arithmetic?_code hof,
      State.execute, hf]
    exact hm.next.write hp hd _
  | math page dst lhs op rhs =>
    obtain ⟨hp, hd, hl, hr, o, ho, heff⟩ := Machine.effect_math h
    obtain ⟨f, hf, hof⟩ := OperatorRef.meaning?_of_resolve ho hi
    rw [Instruction.mnemonic, heff, hm.read hp hl, hm.read hp hr, Operator.arithmetic?_code hof,
      State.execute, hf]
    exact hm.next.write hp hd _
  | bitwi page dst src op imm =>
    obtain ⟨hp, hd, hs, o, ho, heff⟩ := Machine.effect_bitwi h
    obtain ⟨f, hf, hof⟩ := OperatorRef.meaning?_of_resolve ho hi.1
    rw [Instruction.mnemonic, heff, hi.2.bmod, hm.read hp hs, Operator.bitwise?_code hof,
      State.execute, hf]
    exact hm.next.write hp hd _
  | bitw page dst lhs op rhs =>
    obtain ⟨hp, hd, hl, hr, o, ho, heff⟩ := Machine.effect_bitw h
    obtain ⟨f, hf, hof⟩ := OperatorRef.meaning?_of_resolve ho hi
    rw [Instruction.mnemonic, heff, hm.read hp hl, hm.read hp hr, Operator.bitwise?_code hof,
      State.execute, hf]
    exact hm.next.write hp hd _
  | memwi page reg addr =>
    obtain ⟨hp, hr, heff⟩ := Machine.effect_memwi h hi
    rw [Instruction.mnemonic, heff, hm.read hp hr]
    exact agree_store hm _ _
  | memri page reg addr =>
    obtain ⟨hp, hr, heff⟩ := Machine.effect_memri h hi
    rw [Instruction.mnemonic, heff]
    exact agree_load hm hp hr _
  | memw page src addr =>
    obtain ⟨hp, hs, hr, heff⟩ := Machine.effect_memw h
    rw [Instruction.mnemonic, heff, hm.read hp hs, hm.read hp hr]
    exact agree_store hm _ _
  | memr page dst addr =>
    obtain ⟨hp, hd, hr, heff⟩ := Machine.effect_memr h
    rw [Instruction.mnemonic, heff, hm.read hp hr]
    exact agree_load hm hp hd _
  | loopnz page reg target =>
    obtain ⟨hp, hr, place, hplace, heff⟩ := Machine.effect_loopnz h
    rw [Instruction.mnemonic, heff, hm.read hp hr, State.execute, Program.place, hplace]
    by_cases hzero : s.read page reg = 0
    · simp only [hzero, if_true]
      exact hm.next
    · simp only [hzero, if_false]
      exact (hm.goto place).write hp hr _
  | condj page lhs op rhs target =>
    obtain ⟨hp, hl, hr, o, place, ho, hplace, heff⟩ := Machine.effect_condj h
    obtain ⟨f, hf, hof⟩ := OperatorRef.meaning?_of_resolve ho hi
    rw [Instruction.mnemonic, heff, hm.read hp hl, hm.read hp hr, Operator.comparison?_code hof,
      State.execute, hf, Program.place, hplace]
    simp only [State.require, Machine.demand, Except.map, bind, Except.bind, pure, Except.pure]
    split
    · exact hm.goto place
    · exact hm.next
  | halt => exact ⟨hm.registers, hm.memory, congrArg (· + 1) hm.pc, hm.time, hm.events, rfl⟩
  | set channel page freq phase addr gain mode t =>
    obtain ⟨hp, hregs, heff⟩ := Machine.effect_set h
    simp only [List.forall_mem_cons, List.not_mem_nil, false_imp_iff, implies_true,
      and_true] at hregs
    obtain ⟨hfreq, hphase, haddr, hgain, hmode, ht⟩ := hregs
    rw [Instruction.mnemonic, heff, hm.read hp hfreq, hm.read hp hphase, hm.read hp haddr,
      hm.read hp hgain, hm.read hp hmode, hm.read hp ht, hm.time]
    exact hm.next.emit _
  | seti channel page reg t =>
    obtain ⟨hp, hr, heff⟩ := Machine.effect_seti h
    rw [Instruction.mnemonic, heff, Narrow.bmod hi, hm.read hp hr, hm.time]
    exact hm.next.emit _
  | synci t =>
    rw [Instruction.mnemonic, Machine.effect_synci h, Narrow.bmod hi]
    exact hm.next.wait t
  | sync page reg =>
    obtain ⟨hp, hr, heff⟩ := Machine.effect_sync h
    rw [Instruction.mnemonic, heff, hm.read hp hr]
    exact hm.next.wait _
  | waiti channel t => exact hm.next
  | wait channel page reg => exact hm.next
  | setbi page reg imm => exact congrArg (EmulatorError.unsupported · _) hm.pc.symm
  | setb page src addr => exact congrArg (EmulatorError.unsupported · _) hm.pc.symm
  | pushi page dst src imm => exact congrArg (EmulatorError.unsupported · _) hm.pc.symm
  | popi page reg => exact congrArg (EmulatorError.unsupported · _) hm.pc.symm
  | read channel page op reg => exact congrArg (EmulatorError.unsupported · _) hm.pc.symm

end

/-! ### Runs -/

/-- An interpreter and an emulator of the encoded program, in matching states. -/
structure Related (x : Interpreter) (e : Emulator) : Prop where
  words : x.program.encode = .ok e.words.toList
  plain : ∀ s ∈ x.program.statements, s.instruction.Plain
  state : x.state.Matches e.machine
  steps : e.steps = x.steps
  limit : e.limit = x.limit

variable {x : Interpreter} {e : Emulator}

/-- The statement at a place and the word there go together. -/
theorem Related.fetch (h : Related x e) (k : Nat) :
    (x.program.statements[k]? = none ∧ e.words[k]? = none) ∨
      ∃ s w, x.program.statements[k]? = some s ∧ e.words[k]? = some w ∧
        s.instruction.Plain ∧ x.program.encodeInstruction k s.instruction = .ok w := by
  cases hs : x.program.statements[k]? with
  | none =>
    refine .inl ⟨rfl, ?_⟩
    have hlen : e.words.size = x.program.statements.size := by
      simpa [Program.size] using Program.length_encode h.words
    rw [Array.getElem?_eq_none_iff] at hs ⊢
    omega
  | some s =>
    obtain ⟨w, hw, hencode⟩ := Program.exists_word h.words hs
    rw [Array.getElem?_toList] at hw
    exact .inr ⟨s, w, rfl, hw, h.plain s (Array.mem_of_getElem? hs), hencode⟩

/-- **One step of each.**  The answers are the same and what follows is related again. -/
theorem Related.step (h : Related x e) :
    e.step.1 = x.step.1 ∧ Related x.step.2 e.step.2 := by
  unfold Interpreter.step Emulator.step Emulator.advance
  rw [h.state.halted, h.state.pc, h.steps, h.limit]
  by_cases hhalted : x.state.halted
  · rw [if_pos hhalted, if_pos hhalted]
    exact ⟨rfl, h⟩
  rw [if_neg hhalted, if_neg hhalted]
  by_cases hlimit : x.limit ≤ x.steps
  · rw [if_pos hlimit, if_pos hlimit]
    exact ⟨rfl, h.words, h.plain, h.state, rfl, rfl⟩
  rw [if_neg hlimit, if_neg hlimit]
  rcases h.fetch x.state.pc with ⟨hs, hw⟩ | ⟨s, w, hs, hw, hplain, hencode⟩
  · rw [hs, hw]
    exact ⟨rfl, h.words, h.plain, h.state, rfl, rfl⟩
  · rw [hs, hw]
    simp only [Program.decode?_encodeInstruction hencode]
    -- By `Agree` either both sides fail or neither does; the mixed cases are empty.
    have hagree := execute_simulates hencode hplain h.state
    cases hx : x.state.execute x.program s.instruction with
    | error err =>
      cases he : (e.machine.effect ⟨s.instruction.mnemonic, w⟩).map e.machine.apply with
      | error err' =>
        rw [hx, he] at hagree
        exact ⟨congrArg Except.error hagree.symm, h.words, h.plain, h.state, rfl, rfl⟩
      | ok m => rw [hx, he] at hagree; exact hagree.elim
    | ok state =>
      cases he : (e.machine.effect ⟨s.instruction.mnemonic, w⟩).map e.machine.apply with
      | error err => rw [hx, he] at hagree; exact hagree.elim
      | ok m =>
        rw [hx, he] at hagree
        exact ⟨congrArg (fun b => Except.ok (! b)) hagree.halted, h.words, h.plain, hagree,
          rfl, rfl⟩

/-- Related runs stay so. -/
theorem Related.stepsOf (h : Related x e) (n : Nat) :
    (stepsOf Emulator.step n e).1 = (stepsOf Interpreter.step n x).1 ∧
      Related (stepsOf Interpreter.step n x).2 (stepsOf Emulator.step n e).2 := by
  induction n generalizing x e with
  | zero => exact ⟨rfl, h⟩
  | succ n ih =>
    obtain ⟨hanswer, hnext⟩ := h.step
    obtain ⟨hanswers, hlast⟩ := ih hnext
    exact ⟨by rw [PulseProcessor.stepsOf, PulseProcessor.stepsOf, hanswer, hanswers], hlast⟩

/-- **The words of a program do what its statements say.**  Started in matching states, with as
many steps behind them and the same limit, emulator and interpreter answer alike at every step of a
run of any length, errors included, and every state that they reach matches. -/
theorem encode_simulates {p : Program} {ws : List Word} (hencode : p.encode = .ok ws)
    (hplain : ∀ s ∈ p.statements, s.instruction.Plain) {s : State} {m : Machine}
    (hm : s.Matches m) (steps limit n : Nat) :
    let x := stepsOf Interpreter.step n { program := p, state := s, steps, limit }
    let e := PulseProcessor.stepsOf Emulator.step n
      { words := ws.toArray, machine := m, steps, limit }
    e.1 = x.1 ∧ x.2.state.Matches e.2.machine ∧ e.2.steps = x.2.steps := by
  intro x e
  have h : Related { program := p, state := s, steps, limit }
      { words := ws.toArray, machine := m, steps, limit } :=
    ⟨by simpa using hencode, hplain, hm, rfl, rfl⟩
  obtain ⟨hanswers, hlast⟩ := h.stepsOf n
  exact ⟨hanswers, hlast.state, hlast.steps⟩

/-- A loop that takes 5 from a register three times and keeps the result. -/
def countdown : Program where
  statements := #[⟨.regwi 0 1 2, none⟩, ⟨.mathi 0 2 2 (.symbol "+") (-5), none⟩,
    ⟨.loopnz 0 1 "L", none⟩, ⟨.memwi 0 2 7, none⟩, ⟨.halt, none⟩]
  labels := #[("L", 1)]

theorem encode_simulates_countdown :
    let ws : List Word := [0x1900020000000002, 0x120204207ffffffb, 0x3002021000000001,
      0x1800000100000007, 0x3f00000000000000]
    countdown.encode = .ok ws ∧ (∀ s ∈ countdown.statements, s.instruction.Plain) ∧
      ({} : State).Matches {} ∧
      (PulseProcessor.stepsOf Emulator.step 12 { words := ws.toArray }).1 =
        (PulseProcessor.stepsOf Interpreter.step 12 { program := countdown }).1 ∧
      (PulseProcessor.stepsOf Interpreter.step 12 { program := countdown }).2.state.memory 7 =
        -15 := by
  intro ws
  have hencode : countdown.encode = .ok ws := by rfl
  have hplain : ∀ s ∈ countdown.statements, s.instruction.Plain := by decide
  exact ⟨hencode, hplain, .init,
    (encode_simulates hencode hplain .init 0 defaultStepLimit 12).1, by decide +kernel⟩

end Interpreter
end PulseProcessor
