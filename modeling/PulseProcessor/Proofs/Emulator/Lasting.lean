import Mathlib.Data.List.Induction
import PulseProcessor.Proofs.Emulator.WellFormed

/-! # Failing again

An emulator that has failed stands where it stood, and the reason for the failure is still there.
It fails with it again and again, until the limit has become a reason that comes first
(`Emulator.failure_lasts`).
-/

namespace PulseProcessor
namespace Emulator

variable {e : Emulator} {err : EmulatorError}

/-- A run comes to what its first step comes to. -/
theorem Fails.run_eq (h : e.Fails err) (hrun : e.machine.halted = false) :
    e.run = (.error err, { e with steps := e.steps + err.cost }) :=
  run_of_failure hrun (h.step_eq hrun)

/-- What an emulator fails with that has failed before, once it has counted so many steps. -/
def lastingError (e : Emulator) (err : EmulatorError) (steps : Nat) : EmulatorError :=
  if steps < e.limit then err else .stepLimit e.limit

/-- **Reasons last**: nothing they depend on is changed by counting, and the limit comes first. -/
theorem Fails.lasts {n : Nat} (h : e.Fails err) (hn : e.steps ≤ n) :
    ({ e with steps := n } : Emulator).Fails (e.lastingError err n) := by
  unfold lastingError
  split
  · rename_i hlt
    cases h with
    | limit hlimit => omega
    | place _ hword => exact .place hlt hword
    | opcode _ hword hd => exact .opcode hlt hword hd
    | effect _ hword hd heff => exact .effect hlt hword hd heff
  · rename_i hge
    exact .limit (Nat.not_lt.1 hge)

/-- Steps that have been counted when so many further attempts have failed. -/
def stepsAfter (e : Emulator) (err : EmulatorError) (attempts : Nat) : Nat :=
  e.steps + min (attempts * err.cost) (e.limit - e.steps)

theorem le_stepsAfter (e : Emulator) (err : EmulatorError) (n : Nat) :
    e.steps ≤ e.stepsAfter err n := Nat.le_add_right ..

theorem stepsAfter_mono {n n' : Nat} (h : n ≤ n') : e.stepsAfter err n ≤ e.stepsAfter err n' := by
  have hmul : n * err.cost ≤ n' * err.cost := Nat.mul_le_mul_right _ h
  unfold stepsAfter
  omega

/-- One more attempt costs what it fails with. -/
theorem stepsAfter_succ (n : Nat) :
    e.stepsAfter err (n + 1) =
      e.stepsAfter err n + (e.lastingError err (e.stepsAfter err n)).cost := by
  unfold lastingError stepsAfter
  rcases err.cost_eq_zero_or_one with hcost | hcost
  · split <;> simp [hcost]
  · rw [hcost, Nat.mul_one, Nat.mul_one]
    split
    · rw [hcost]
      omega
    · rw [EmulatorError.cost_stepLimit]
      omega

/-- **An emulator that fails goes on to fail**, whatever it is called to do. -/
theorem Fails.after_eq (h : e.Fails err) (hrun : e.machine.halted = false) (calls : List Call) :
    e.after calls = { e with steps := e.stepsAfter err calls.length } := by
  induction calls using List.reverseRecOn with
  | nil => simp [after, stepsAfter]
  | append_singleton calls c ih =>
    rw [after_append, ih, List.length_append, List.length_singleton, stepsAfter_succ]
    have hlasts := h.lasts (le_stepsAfter e err calls.length)
    cases c with
    | step => exact congrArg Prod.snd (hlasts.step_eq hrun)
    | run => exact congrArg Prod.snd (hlasts.run_eq hrun)

/-- **What a failure comes to**, for an emulator that may be called again. -/
structure Lasting (e : Emulator) (err : EmulatorError) : Prop where
  /-- Nothing but the steps has changed: no register, no word of data memory, no event, and neither
  the time nor the place. -/
  changed : e.step.2 = { e with steps := e.steps + err.cost }
  /-- Nor does anything else change from then on. -/
  unchanged : ∀ calls,
    e.step.2.after calls = { e with steps := (e.step.2.after calls).steps }
  /-- Every call costs what the first one has cost, up to the limit. -/
  counted : ∀ calls,
    (e.step.2.after calls).steps =
      e.steps + min ((calls.length + 1) * err.cost) (e.limit - e.steps)
  /-- As long as there are steps left, the emulator fails with the same error. -/
  same : ∀ calls, (e.step.2.after calls).steps < e.limit →
    (e.step.2.after calls).step.1 = .error err ∧ (e.step.2.after calls).run.1 = .error err
  /-- Once there is none left, that is what it fails with. -/
  exhausted : ∀ calls more, e.limit ≤ (e.step.2.after calls).steps →
    (e.step.2.after (calls ++ more)).step.1 = .error (.stepLimit e.limit) ∧
      (e.step.2.after (calls ++ more)).run.1 = .error (.stepLimit e.limit)

/-- **A failing step changes nothing but the steps, and its failure lasts.** -/
theorem failure_lasts (h : e.step.1 = .error err) : e.Lasting err := by
  obtain ⟨hrun, hfails⟩ := fails_of_step h
  have hafter (calls : List Call) :
      e.step.2.after calls = { e with steps := e.stepsAfter err (calls.length + 1) } :=
    hfails.after_eq hrun (.step :: calls)
  have hanswers (calls : List Call) :
      (e.step.2.after calls).step.1 =
          .error (e.lastingError err (e.stepsAfter err (calls.length + 1))) ∧
        (e.step.2.after calls).run.1 =
          .error (e.lastingError err (e.stepsAfter err (calls.length + 1))) := by
    have hlasts := hfails.lasts (le_stepsAfter e err (calls.length + 1))
    rw [hafter]
    exact ⟨congrArg Prod.fst (hlasts.step_eq hrun),
      congrArg Prod.fst (hlasts.run_eq hrun)⟩
  refine {
    changed := congrArg Prod.snd (hfails.step_eq hrun)
    unchanged := fun calls => by rw [hafter]
    counted := fun calls => congrArg steps (hafter calls)
    same := fun calls hlt => ?_
    exhausted := fun calls more hle => ?_ }
  · rw [hafter] at hlt
    have herr : e.lastingError err (e.stepsAfter err (calls.length + 1)) = err := if_pos hlt
    rw [← herr]
    exact hanswers calls
  · rw [hafter] at hle
    have hcalls : calls.length + 1 ≤ (calls ++ more).length + 1 := by simp
    have hmore := Nat.le_trans hle (stepsAfter_mono hcalls)
    have herr : e.lastingError err (e.stepsAfter err ((calls ++ more).length + 1)) =
        .stepLimit e.limit := if_neg (Nat.not_lt.2 hmore)
    rw [← herr]
    exact hanswers (calls ++ more)

/-- An address that data memory does not have is refused in the second of three steps. -/
theorem failure_lasts_outOfMemory :
    let e := (ofWords [0x1900000000000007, 0x1800000040000000] 3).after [.step]
    e.step.1 = .error (.memoryOutOfRange 1 0x40000000) ∧
      e.Lasting (.memoryOutOfRange 1 0x40000000) := by
  have h : ((ofWords [0x1900000000000007, 0x1800000040000000] 3).after [.step]).step.1 =
      .error (.memoryOutOfRange 1 0x40000000) := by rfl
  exact ⟨h, failure_lasts h⟩

end Emulator
end PulseProcessor
