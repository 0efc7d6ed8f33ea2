import PulseProcessor.Proofs.Emulator.Execution

/-! # Failing steps

Whatever can go wrong with an instruction is found before it has an effect, so a step that fails
leaves the machine as it was (`Emulator.Fails.step_eq`).  All it may do is to count: an instruction
counts as soon as it has been decoded (`EmulatorError.cost`).
-/

namespace PulseProcessor

open Isa (Decoded decode?)

/-- Steps that a failure counts for. -/
def EmulatorError.cost : EmulatorError → Nat
  | invalidOpcode .. | stepLimit _ | pcOutOfRange _ => 0
  | unsupported .. | invalidOperator .. | memoryOutOfRange .. => 1

@[simp] theorem EmulatorError.cost_stepLimit (limit : Nat) : (stepLimit limit).cost = 0 := rfl

theorem EmulatorError.cost_eq_zero_or_one (err : EmulatorError) : err.cost = 0 ∨ err.cost = 1 := by
  cases err <;> simp [cost]

/-- **An instruction that has been decoded counts**, whatever is wrong with it. -/
theorem Machine.cost_of_effect {s : Machine} {d : Decoded} {err : EmulatorError}
    (h : s.effect d = .error err) : err.cost = 1 := by
  obtain ⟨mnemonic, word⟩ := d
  cases mnemonic
  case regwi | loopnz | halt | set | seti | synci | sync | waiti | wait => contradiction
  case pushi | popi | setbi | setb | read =>
    cases h
    rfl
  case mathi | math | bitwi | bitw | condj | memri | memr | memwi | memw =>
    -- What is demanded of the operands is demanded once, in front of the effect.
    simp only [effect] at h
    split at h
    · contradiction
    · cases h
      rfl

namespace Emulator

variable {e : Emulator} {err : EmulatorError}

/-- **Why the next instruction cannot be executed.**  Of several reasons the first one counts. -/
inductive Fails (e : Emulator) : EmulatorError → Prop where
  | limit (hlimit : e.limit ≤ e.steps) : Fails e (.stepLimit e.limit)
  | place (hlimit : e.steps < e.limit) (hword : e.words[e.machine.pc]? = none) :
    Fails e (.pcOutOfRange e.machine.pc)
  | opcode {word : Word} (hlimit : e.steps < e.limit)
    (hword : e.words[e.machine.pc]? = some word) (hd : decode? word = none) :
    Fails e (.invalidOpcode e.machine.pc word)
  | effect {word : Word} {d : Decoded} {err : EmulatorError} (hlimit : e.steps < e.limit)
    (hword : e.words[e.machine.pc]? = some word) (hd : decode? word = some d)
    (heff : e.machine.effect d = .error err) : Fails e err

/-- Whoever has no reason to fail has an instruction to execute. -/
theorem fails_or_executes (e : Emulator) : (∃ err, e.Fails err) ∨
    ∃ word d eff, e.steps < e.limit ∧ e.words[e.machine.pc]? = some word ∧
      decode? word = some d ∧ e.machine.effect d = .ok eff := by
  rcases Nat.lt_or_ge e.steps e.limit with hlimit | hlimit
  · cases hword : e.words[e.machine.pc]? with
    | none => exact .inl ⟨_, .place hlimit hword⟩
    | some word =>
      cases hd : decode? word with
      | none => exact .inl ⟨_, .opcode hlimit hword hd⟩
      | some d =>
        cases heff : e.machine.effect d with
        | error err => exact .inl ⟨err, .effect hlimit hword hd heff⟩
        | ok eff => exact .inr ⟨word, d, eff, hlimit, rfl, hd, heff⟩
  · exact .inl ⟨_, .limit hlimit⟩

/-- **A step that fails changes nothing but the steps**, and these by its cost. -/
theorem Fails.step_eq (h : e.Fails err) (hrun : e.machine.halted = false) :
    e.step = (.error err, { e with steps := e.steps + err.cost }) := by
  cases h with
  | limit hlimit => simp [step, advance, hrun, hlimit]
  | place hlimit hword =>
    simp [step, advance, hrun, Nat.not_le.2 hlimit, hword, EmulatorError.cost]
  | opcode hlimit hword hd =>
    simp [step, advance, hrun, Nat.not_le.2 hlimit, hword, hd, EmulatorError.cost]
  | effect hlimit hword hd heff =>
    rw [step_of_decode? hrun hlimit hword hd, Machine.cost_of_effect heff, heff]
    rfl

/-- A step fails for a reason. -/
theorem fails_of_step (h : e.step.1 = .error err) : e.machine.halted = false ∧ e.Fails err := by
  cases hrun : e.machine.halted with
  | true =>
    rw [step, if_pos hrun] at h
    contradiction
  | false =>
    refine ⟨rfl, ?_⟩
    rcases e.fails_or_executes with ⟨err', hfails⟩ | ⟨word, d, eff, hlimit, hword, hd, heff⟩
    · rw [hfails.step_eq hrun] at h
      cases h
      exact hfails
    · rw [step_of_decode? hrun hlimit hword hd, heff] at h
      contradiction

end Emulator
end PulseProcessor
